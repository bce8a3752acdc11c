/-
# HeavenFox.Platform.KobjectRuns -- creating, removing and finding

Next to the objects a run keeps what the paths are meant to be: which object was created for
which path.  Populating a path creates the missing part of it, one object for each component,
and removing an object takes its path away.

As long as no component on a path is taken for the beginning of another name, the two agree and
`fwk_find_kobject_by_path` answers with the object of exactly that path.

A directory that still has members is not unregistered, but its memory is given back all the same
(`remove_nonempty_intact_iff`).
-/
import HeavenFox.Platform.KobjectWalks

namespace HeavenFox.Platform

open HeavenFox.Common HeavenFox.Logic

/-! ## What is created -/

/-- The object that was created for a path and is still there. -/
abbrev Created := KPath → Option Nat

/-- Create a path that is missing. -/
def Created.add (c : Created) (p : KPath) (x : Nat) : Created :=
  if (c p).isSome then c else Function.update c p (some x)

/-- The components of a path behind `done` that are missing, in order; `fresh` numbers the new
objects. -/
def createMissing (fresh : Nat → Nat) :
    Nat → List (List Char) → List (List Char) → Option (List Char) → Created → Created
  | _, _, [], none, c => c
  | i, done, [], some name, c => c.add ⟨done, some name⟩ (fresh i)
  | i, done, name :: dirs, file, c =>
    createMissing fresh (if (c ⟨done ++ [name], none⟩).isSome then i else i + 1) (done ++ [name])
      dirs file (c.add ⟨done ++ [name], none⟩ (fresh i))

/-- Every path has the object that was created for it. -/
def Agrees (root : Nat) (s : Kobjects) (c : Created) : Prop := ∀ p x, c p = some x ↔ ObjAt root s p x

/-- The allocator gives whole objects that are not in use, each time another one. -/
structure FreshFrom (root : Nat) (s : Kobjects) (mem : Nat → KobjMem) (i n : Nat) : Prop where
  ok : ∀ j, i ≤ j → j < n → (mem j).Ok
  free : ∀ j, i ≤ j → j < n → s.live (mem j).kzalloc = false ∧ (mem j).kzalloc ≠ root
  apart : ∀ j j', i ≤ j → j < j' → j' < n → (mem j).kzalloc ≠ (mem j').kzalloc

/-- The objects from the first one on. -/
instance (root : Nat) (s : Kobjects) (mem : Nat → KobjMem) (n : Nat) :
    Decidable (FreshFrom root s mem 0 n) :=
  decidable_of_iff ((∀ j < n, (mem j).Ok ∧ s.live (mem j).kzalloc = false ∧ (mem j).kzalloc ≠ root) ∧
      ∀ j' < n, ∀ j < j', (mem j).kzalloc ≠ (mem j').kzalloc)
    ⟨fun h => ⟨fun j _ hj => (h.1 j hj).1, fun j _ hj => (h.1 j hj).2,
        fun j j' _ hj hj' => h.2 j' hj' j hj⟩,
      fun h => ⟨fun j hj => ⟨h.ok j (Nat.zero_le j) hj, h.free j (Nat.zero_le j) hj⟩,
        fun j' hj' j hj => h.apart j j' (Nat.zero_le j) hj hj'⟩⟩

theorem FreshFrom.next {root i n k : Nat} {s : Kobjects} {mem : Nat → KobjMem} {name : List Char}
    {isDir : Bool} (h : FreshFrom root s mem i n) :
    FreshFrom root (s.addObj (mem i).kzalloc k name isDir) mem (i + 1) n where
  ok j hij hj := h.ok j (Nat.le_of_succ_le hij) hj
  free j hij hj := by
    have hne := h.apart i j (Nat.le_refl i) hij hj
    simpa only [Kobjects.addObj, Function.update_of_ne hne.symm] using
      h.free j (Nat.le_of_succ_le hij) hj
  apart j j' hij hjj hj' := h.apart j j' (Nat.le_of_succ_le hij) hjj hj'

theorem agrees_child {root k : Nat} {s : Kobjects} {c : Created} {done : List (List Char)}
    {name : List Char} {isDir : Bool} {x : Nat} (hagrees : Agrees root s c) (htree : IsTree root s)
    (hdone : WalkDirs s root done k) :
    c (childPath done name isDir) = some x ↔ IsChild s k name isDir x := by
  rw [hagrees]
  cases isDir with
  | false =>
    constructor
    · rintro ⟨z, hz, hx⟩
      exact htree.walk_unique hdone hz ▸ hx
    · exact fun hx => ⟨k, hdone, hx⟩
  | true =>
    constructor
    · intro hx
      obtain ⟨z, hz, hx⟩ := walkDirs_snoc.mp hx
      exact htree.walk_unique hdone hz ▸ hx
    · exact fun hx => walkDirs_snoc.mpr ⟨k, hdone, hx⟩

/-- Both grow by the same object. -/
theorem CanAdd.agrees_add {root x k : Nat} {s : Kobjects} {c : Created} {done : List (List Char)}
    {name : List Char} (h : CanAdd root s x k name) (hagrees : Agrees root s c)
    (hdone : WalkDirs s root done k) (isDir : Bool) :
    Agrees root (s.addObj x k name isDir) (c.add (childPath done name isDir) x) := by
  have hnone : c (childPath done name isDir) = none := by
    refine Option.eq_none_iff_forall_ne_some.mpr fun y hy => ?_
    exact h.name_new isDir y ((agrees_child hagrees h.tree hdone).mp hy)
  intro p y
  rw [h.objAt_add hdone, ← hagrees p y]
  simp only [Created.add, hnone, Option.isSome_none, Bool.false_eq_true, if_false]
  by_cases hp : p = childPath done name isDir
  · subst hp
    simp [hnone, eq_comm]
  · simp [hp]

/-! ## Creating -/

section Rounds

variable {root : Nat} {mem : Nat → KobjMem} {s t : Kobjects} {n i k x : Nat} {o : Option Nat}
  {name rest : List Char}

/-- A round of `populateLoop` for a directory that is there. -/
theorem populateLoop_found (hname : NameOk name)
    (h : matchMember s k (name ++ '/' :: rest) name.length true = some x) :
    populateLoop root mem (n + 1) true i ('/' :: (name ++ '/' :: rest)) o k s =
      populateLoop root mem n true i ('/' :: rest) (some x) x s := by
  have hstr := kstrchr_append rest hname.no_slash
  have hlenth : componentLenth (name ++ '/' :: rest) (some ('/' :: rest)) = name.length := by
    simp [componentLenth]
  obtain ⟨ch, tail, rfl, hch⟩ := hname.exists_cons
  rw [List.cons_append] at hstr hlenth h ⊢
  simp only [populateLoop, if_true, List.tail_cons]
  split
  next heq => cases heq
  next heq => exact absurd (List.cons.inj heq).1 hch
  next =>
    rw [hstr]
    simp only [hlenth, h]

/-- The round for one that is missing. -/
theorem populateLoop_made (hname : NameOk name)
    (h : matchMember s k (name ++ '/' :: rest) name.length true = none)
    (hmade : __fwkKobjectPopulateDir root (mem i) s k (name ++ '/' :: rest) = .ok (some x, t)) :
    populateLoop root mem (n + 1) true i ('/' :: (name ++ '/' :: rest)) o k s =
      populateLoop root mem n true (i + 1) ('/' :: rest) (some x) x t := by
  have hstr := kstrchr_append rest hname.no_slash
  have hlenth : componentLenth (name ++ '/' :: rest) (some ('/' :: rest)) = name.length := by
    simp [componentLenth]
  obtain ⟨ch, tail, rfl, hch⟩ := hname.exists_cons
  rw [List.cons_append] at hstr hlenth h hmade ⊢
  simp only [populateLoop, if_true, List.tail_cons]
  split
  next heq => cases heq
  next heq => exact absurd (List.cons.inj heq).1 hch
  next =>
    rw [hstr]
    simp only [hlenth, h, hmade, bind, Except.bind]

/-- The round for a file that is there. -/
theorem populateLoop_existed (hname : NameOk name)
    (h : matchMember s k name name.length false = some x) :
    populateLoop root mem (n + 1) true i ('/' :: name) o k s = .ok (.error (-erExisted), s) := by
  have hstr := kstrchr_none hname.no_slash
  obtain ⟨ch, tail, rfl, hch⟩ := hname.exists_cons
  simp only [populateLoop, if_true, List.tail_cons]
  split
  next heq => cases heq
  next heq => exact absurd (List.cons.inj heq).1 hch
  next => simp only [hstr, componentLenth, h]

/-- And for one that is missing. -/
theorem populateLoop_file (hname : NameOk name)
    (h : matchMember s k name name.length false = none)
    (hmade : __fwkKobjectPopulateDir root (mem i) s k name = .ok (some x, t)) :
    populateLoop root mem (n + 1) true i ('/' :: name) o k s = .ok (.ok (some x), t) := by
  have hstr := kstrchr_none hname.no_slash
  obtain ⟨ch, tail, rfl, hch⟩ := hname.exists_cons
  simp only [populateLoop, if_true, List.tail_cons]
  split
  next heq => cases heq
  next heq => exact absurd (List.cons.inj heq).1 hch
  next => simp only [hstr, componentLenth, h, hmade, bind, Except.bind]

end Rounds

/-- What `fwk_kobject_populate` answers: the object of the path, or that the file was there. -/
def Answered (c c' : Created) (p : KPath) (r : Except Int (Option Nat)) : Prop :=
  if p.file.isSome && (c p).isSome then r = .error (-erExisted) else r = .ok (c' p)

theorem Created.add_file {c : Created} {dirs : List (List Char)} {p : KPath} {x : Nat}
    (hp : p.file.isSome = true) : (c.add ⟨dirs, none⟩ x) p = c p := by
  unfold Created.add
  split
  next => rfl
  next =>
    refine Function.update_of_ne ?_ _ _
    rintro rfl
    exact absurd hp (by simp)

/-- A missing component, in a directory with nothing in the way. -/
theorem canAdd_missing {root i m k : Nat} {s : Kobjects} {mem : Nat → KobjMem} {name : List Char}
    {isDir : Bool} {done : List (List Char)} (htree : IsTree root s)
    (hfresh : FreshFrom root s mem i m) (hi : i < m) (hdone : WalkDirs s root done k)
    (hclear : ClearAt s k name isDir) (hnone : ∀ x, ¬ IsChild s k name isDir x) :
    CanAdd root s (mem i).kzalloc k name where
  tree := htree
  free := (hfresh.free i (Nat.le_refl i) hi).1
  ne_root := (hfresh.free i (Nat.le_refl i) hi).2
  dir := htree.walk_end hdone
  name_new isDir' y := by
    by_cases hdir : isDir' = isDir
    · subst hdir
      exact hnone y
    · obtain rfl : isDir' = !isDir := by cases isDir <;> cases isDir' <;> simp_all
      exact hclear.2 y

/-- `populateLoop` at the name of a file. -/
theorem populateLoop_name {root : Nat} {mem : Nat → KobjMem} {name : List Char}
    {done : List (List Char)} {s : Kobjects} {c : Created} {i k m n : Nat} {o : Option Nat}
    (htree : IsTree root s) (hagrees : Agrees root s c) (hdone : WalkDirs s root done k)
    (hname : NameOk name) (hclear : ClearAt s k name false) (hfresh : FreshFrom root s mem i m)
    (hi : i < m) :
    ∃ r t, populateLoop root mem (n + 1) true i ('/' :: name) o k s = .ok (r, t) ∧
      IsTree root t ∧
      Agrees root t (createMissing (fun i => (mem i).kzalloc) i done [] (some name) c) ∧
      Answered c (createMissing (fun i => (mem i).kzalloc) i done [] (some name) c)
        ⟨done, some name⟩ r := by
  have hspec := matchMember_spec [] htree hclear.1
  have hchild := @agrees_child root k s c done name false
  rw [List.append_nil] at hspec
  cases hmatch : matchMember s k name name.length false with
  | some x =>
    have hself : c ⟨done, some name⟩ = some x :=
      (hchild hagrees htree hdone).mpr ((hspec x).mp hmatch)
    refine ⟨_, s, populateLoop_existed hname hmatch, htree, ?_, ?_⟩
    · simpa [createMissing, Created.add, hself] using hagrees
    · simp [Answered, hself]
  | none =>
    have hnone : ∀ x, ¬ IsChild s k name false x := fun x hx =>
      absurd ((hspec x).mpr hx) (by simp [hmatch])
    have hadd := canAdd_missing htree hfresh hi hdone hclear hnone
    have hmade := hadd.populateDir_file (hfresh.ok i (Nat.le_refl i) hi) hname
    have hself : c ⟨done, some name⟩ = none :=
      Option.eq_none_iff_forall_ne_some.mpr fun x hx =>
        hnone x ((hchild hagrees htree hdone).mp hx)
    refine ⟨_, _, populateLoop_file hname hmatch hmade, hadd.isTree_add false,
      hadd.agrees_add hagrees hdone false, ?_⟩
    simp [Answered, createMissing, Created.add, hself]

/-- `populateLoop` from a directory on. -/
theorem populateLoop_walk {root : Nat} {mem : Nat → KobjMem} {file : Option (List Char)}
    {dirs done : List (List Char)} {s : Kobjects} {c : Created} {i k m n : Nat} {o : Option Nat}
    (htree : IsTree root s) (hagrees : Agrees root s c) (hdone : WalkDirs s root done k)
    (hwf : KPath.WellFormed ⟨dirs, file⟩) (hclear : Along (ClearAt s) s k dirs file)
    (hfresh : FreshFrom root s mem i m) (hm : i + dirs.length + 1 ≤ m) (hn : dirs.length + 1 ≤ n)
    (ho : dirs = [] → file = none → o = some k) :
    ∃ r t, populateLoop root mem n true i (KPath.text ⟨dirs, file⟩) o k s = .ok (r, t) ∧
      IsTree root t ∧
      Agrees root t (createMissing (fun i => (mem i).kzalloc) i done dirs file c) ∧
      Answered c (createMissing (fun i => (mem i).kzalloc) i done dirs file c)
        ⟨done ++ dirs, file⟩ r := by
  induction dirs generalizing done s c i k n o with
  | nil =>
    obtain ⟨n, rfl⟩ := Nat.exists_eq_add_of_le' hn
    cases file with
    | none =>
      obtain rfl := ho rfl rfl
      refine ⟨.ok (some k), s, rfl, htree, hagrees, ?_⟩
      have hself : c ⟨done, none⟩ = some k := (hagrees _ _).mpr hdone
      simp [Answered, createMissing, hself]
    | some name =>
      rw [List.append_nil]
      exact populateLoop_name htree hagrees hdone (hwf.2 name rfl) hclear hfresh (by omega)
  | cons name dirs ih =>
    obtain ⟨n, rfl⟩ := Nat.exists_eq_add_of_le' (Nat.le_of_add_left_le hn)
    obtain ⟨hname, hwf⟩ := hwf.of_cons
    obtain ⟨hthis, hnext⟩ := hclear
    obtain ⟨rest, hrest⟩ := KPath.exists_text dirs file
    have hspec := matchMember_spec ('/' :: rest) htree hthis.1
    have hchild := @agrees_child root k s c done name true
    rw [KPath.text_cons, hrest]
    rw [List.length_cons] at hm hn
    cases hmatch : matchMember s k (name ++ '/' :: rest) name.length true with
    | some x =>
      have hx := (hspec x).mp hmatch
      have hself : c ⟨done ++ [name], none⟩ = some x := (hchild hagrees htree hdone).mpr hx
      have hrun := ih (n := n) (o := some x) htree hagrees (walkDirs_snoc.mpr ⟨k, hdone, hx⟩) hwf
        (hnext x hx) hfresh (by omega) (by omega) fun _ _ => rfl
      rw [hrest, List.append_assoc] at hrun
      rw [populateLoop_found hname hmatch]
      simpa [createMissing, Created.add, hself] using hrun
    | none =>
      have hnone : ∀ x, ¬ IsChild s k name true x := fun x hx =>
        absurd ((hspec x).mpr hx) (by simp [hmatch])
      have hadd := canAdd_missing htree hfresh (by omega) hdone hthis hnone
      have hmade := hadd.populateDir_dir (hfresh.ok i (Nat.le_refl i) (by omega)) hname rest
      have hself : c ⟨done ++ [name], none⟩ = none :=
        Option.eq_none_iff_forall_ne_some.mpr fun x hx =>
          hnone x ((hchild hagrees htree hdone).mp hx)
      have hnew : IsChild (s.addObj (mem i).kzalloc k name true) k name true (mem i).kzalloc :=
        hadd.isChild_add.mpr (.inr ⟨rfl, rfl, rfl, rfl⟩)
      have hreach : WalkDirs (s.addObj (mem i).kzalloc k name true) root (done ++ [name])
          (mem i).kzalloc := hadd.walkDirs_add.mpr (.inr ⟨rfl, rfl, done, hdone, rfl⟩)
      have hempty : (s.addObj (mem i).kzalloc k name true).list (mem i).kzalloc = [] := by
        simpa only [Kobjects.addObj, Function.update_of_ne hadd.ne_dir] using
          htree.list_nil hadd.free hadd.ne_root
      have hrun := ih (i := i + 1) (n := n) (o := some (mem i).kzalloc) (hadd.isTree_add true)
        (hadd.agrees_add hagrees hdone true) hreach hwf (along_clear_of_empty hempty dirs file)
        hfresh.next (by omega) (by omega) fun _ _ => rfl
      rw [hrest, List.append_assoc] at hrun
      obtain ⟨r, t, hr, ht, hagrees', hanswered⟩ := hrun
      refine ⟨r, t, (populateLoop_made hname hmatch hmade).trans hr, ht, ?_, ?_⟩
      · simpa [createMissing, hself, childPath] using hagrees'
      · -- the directories made on the way are no files
        unfold Answered at hanswered ⊢
        cases file with
        | none => simpa [createMissing, hself, childPath] using hanswered
        | some other =>
          have hkeep : (c.add ⟨done ++ [name], none⟩ (mem i).kzalloc)
              ⟨done ++ (name :: dirs), some other⟩ = c ⟨done ++ (name :: dirs), some other⟩ :=
            Created.add_file rfl
          simp only [childPath, if_true, List.singleton_append, hkeep] at hanswered
          simpa [createMissing, hself] using hanswered

/-- **Populating a path creates what is missing of it.** -/
theorem populate_exact {root : Nat} {mem : Nat → KobjMem} {s : Kobjects} {c : Created} {p : KPath}
    (htree : IsTree root s) (hagrees : Agrees root s c) (hwf : p.WellFormed) (hp : p ≠ KPath.top)
    (hclear : Clear root s p) (hfresh : FreshFrom root s mem 0 (p.dirs.length + 1)) :
    ∃ r t, fwkKobjectPopulate root mem s none p.text = .ok (r, t) ∧ IsTree root t ∧
      Agrees root t (createMissing (fun i => (mem i).kzalloc) 0 [] p.dirs p.file c) ∧
      Answered c (createMissing (fun i => (mem i).kzalloc) 0 [] p.dirs p.file c) p r := by
  have hhead : p.text.head? = some '/' := by
    obtain ⟨rest, hrest⟩ := KPath.exists_text p.dirs p.file
    simp [hrest]
  have hnil : p.dirs = [] → p.file = none → (none : Option Nat) = some root := by
    intro hdirs hfile
    exact absurd (show p = KPath.top from by cases p; simp_all [KPath.top]) hp
  have hstart : WalkDirs s root [] root := rfl
  obtain ⟨r, t, hr, hrest⟩ := populateLoop_walk htree hagrees hstart hwf hclear
    hfresh (by omega) (Nat.le_succ_of_le (p.length_text hwf)) hnil
  exact ⟨r, t, by simpa [fwkKobjectPopulate, hhead, p.text_tail hwf hp] using hr, hrest⟩

/-! ## Removing -/

/-- An object has one path. -/
theorem objAt_injective {root x : Nat} {s : Kobjects} (h : IsTree root s) {p q : KPath}
    (hp : ObjAt root s p x) (hq : ObjAt root s q x) : p = q := by
  have hdiffer : ∀ {dirs name k}, WalkDirs s root dirs x → ¬ IsChild s k name false x :=
    fun hwalk hchild => absurd ((h.walk_end hwalk).2) (by simp [hchild.2.2])
  obtain ⟨dirs, file⟩ := p
  obtain ⟨dirs', file'⟩ := q
  cases file with
  | none =>
    cases file' with
    | none => exact congrArg (fun dirs => KPath.mk dirs none) (h.walk_injective hp hq)
    | some name' =>
      obtain ⟨k, -, hx⟩ := hq
      exact absurd hx (hdiffer hp)
  | some name =>
    obtain ⟨k, hk, hx⟩ := hp
    cases file' with
    | none => exact absurd hx (hdiffer hq)
    | some name' =>
      obtain ⟨k', hk', hx'⟩ := hq
      obtain ⟨rfl, rfl⟩ := h.parent_unique hx hx'
      exact congrArg (fun dirs => KPath.mk dirs (some name)) (h.walk_injective hk hk')

/-- The object of a path other than the root is a member of a directory. -/
theorem objAt_mem {root x : Nat} {s : Kobjects} {p : KPath} (hp : p ≠ KPath.top)
    (hx : ObjAt root s p x) : ∃ k, x ∈ s.list k := by
  obtain ⟨dirs, file⟩ := p
  cases file with
  | some name =>
    obtain ⟨k, -, hx⟩ := hx
    exact ⟨k, hx.1⟩
  | none =>
    cases dirs using List.reverseRecOn with
    | nil => exact absurd rfl hp
    | append_singleton dirs name =>
      obtain ⟨k, -, hx⟩ := walkDirs_snoc.mp hx
      exact ⟨k, hx.1⟩

/-- **Removing a file or an empty directory takes its path away.** -/
theorem remove_exact {root x : Nat} {s : Kobjects} {c : Created} {p : KPath} (htree : IsTree root s)
    (hagrees : Agrees root s c) (hp : p ≠ KPath.top) (hx : c p = some x) (hempty : s.list x = []) :
    IsTree root (fwkKsetKobjectRemove s x) ∧
      Agrees root (fwkKsetKobjectRemove s x) (Function.update c p none) := by
  have hat := (hagrees p x).mp hx
  obtain ⟨k, hk⟩ := objAt_mem hp hat
  have hdrop : CanDrop root s x k := ⟨htree, hk, hempty⟩
  obtain ⟨obj, hobj⟩ := hdrop.remove_ok
  rw [hobj]
  refine ⟨hdrop.isTree_drop obj, fun q y => ?_⟩
  rw [hdrop.objAt_drop, ← hagrees q y]
  by_cases hq : q = p
  · subst hq
    simp [hx, eq_comm]
  · rw [Function.update_of_ne hq, iff_self_and]
    rintro hy rfl
    exact hq (objAt_injective htree ((hagrees q y).mp hy) hat)

/-! ## Removing a directory that has members -/

/-- Nothing happened to the tree: every member is in its list, every object at its path, and all
that was allocated still is. -/
structure Intact (root : Nat) (s t : Kobjects) : Prop where
  linked : t.list = s.list
  reachable : ∀ p x, ObjAt root t p x ↔ ObjAt root s p x
  allocated : ∀ x, s.live x = true → t.live x = true

/-- A directory with members, other than the root, is an object of its own. -/
theorem IsTree.directory {root x : Nat} {s : Kobjects} (h : IsTree root s) (hmembers : s.list x ≠ []) :
    (s.kobj x).isDir = true ∧ (x ≠ root → s.live x = true) := by
  rcases h.dirs x hmembers with rfl | ⟨hlive, hdir⟩
  · exact ⟨h.rootDir, fun hne => absurd rfl hne⟩
  · exact ⟨hdir, fun _ => hlive⟩

/-- `fwk_kset_unregister` leaves the directory as it is, and then its memory is given back. -/
theorem remove_nonempty {x : Nat} {s : Kobjects} (hdir : (s.kobj x).isDir = true)
    (hmembers : s.list x ≠ []) : fwkKsetKobjectRemove s x = s.setLive x false := by
  rw [fwkKsetKobjectRemove, if_pos hdir, fwkKsetUnregister, if_pos hmembers]

/-- Objects are found by names and members; what is allocated is not looked at. -/
theorem objAt_setLive {root x y : Nat} {s : Kobjects} {b : Bool} {p : KPath} :
    ObjAt root (s.setLive x b) p y ↔ ObjAt root s p y := by
  have hwalk : ∀ {dirs k z}, WalkDirs (s.setLive x b) k dirs z ↔ WalkDirs s k dirs z := by
    intro dirs
    induction dirs with
    | nil => exact Iff.rfl
    | cons name dirs ih => exact exists_congr fun y => and_congr Iff.rfl ih
  obtain ⟨dirs, _ | name⟩ := p
  · exact hwalk
  · exact exists_congr fun k => and_congr hwalk Iff.rfl

/-- **The memory of a directory that is not empty is given back too**, though the directory stays
linked; only the root is no memory of the allocator. -/
theorem remove_nonempty_intact_iff {root x : Nat} {s : Kobjects} (htree : IsTree root s)
    (hmembers : s.list x ≠ []) :
    Intact root s (fwkKsetKobjectRemove s x) ↔ x = root ∧ s.live root = false := by
  obtain ⟨hdir, hlive⟩ := htree.directory hmembers
  rw [remove_nonempty hdir hmembers]
  constructor
  · intro h
    have hdead : s.live x = false := by
      by_contra hx
      have hkept : Function.update s.live x false x = true :=
        h.allocated x (Bool.not_eq_false _ ▸ hx)
      rw [Function.update_self] at hkept
      exact absurd hkept Bool.false_ne_true
    have hroot : x = root := by
      by_contra hne
      exact absurd (hlive hne) (by simp [hdead])
    exact ⟨hroot, hroot ▸ hdead⟩
  · rintro ⟨rfl, hdead⟩
    refine ⟨rfl, fun p y => objAt_setLive, fun y hy => ?_⟩
    have hne : y ≠ x := by
      rintro rfl
      exact absurd hy (by simp [hdead])
    show Function.update s.live x false y = true
    rw [Function.update_of_ne hne]
    exact hy

/-! ## Runs -/

/-- The objects, what was created for which path, what it was before the last call, and what the
last call answered, if it was one of `fwk_kobject_populate`. -/
structure KobjectRun where
  objs : Kobjects
  created : Created
  before : Created
  last : Option (KPath × Except Int (Option Nat))

/-- The calls: `fwk_kobject_populate` of a path, and `fwk_kset_kobject_remove` of the object of a
path. -/
inductive KobjectCall where
  | populate (p : KPath) (mem : Nat → KobjMem)
  | remove (p : KPath)

/-- One call. -/
def kobjectStep (root : Nat) (s : KobjectRun) : KobjectCall → Option KobjectRun
  | .populate p mem =>
    match fwkKobjectPopulate root mem s.objs none p.text with
    | .error _ => none
    | .ok (r, objs) =>
      some ⟨objs, createMissing (fun i => (mem i).kzalloc) 0 [] p.dirs p.file s.created, s.created,
        some (p, r)⟩
  | .remove p =>
    (s.created p).map fun x =>
      ⟨fwkKsetKobjectRemove s.objs x, Function.update s.created p none, s.created, none⟩

/-- Only the root is there. -/
def kobjectStart (root : Nat) : KobjectRun :=
  let created : Created := fun p => if p = KPath.top then some root else none
  ⟨fwkKobjectRootInit root, created, created, none⟩

/-- Well-formed paths, allocations that succeed, and only files and empty directories removed. -/
def KobjectCall.Fits (root : Nat) (s : KobjectRun) : KobjectCall → Prop
  | .populate p mem => p.WellFormed ∧ FreshFrom root s.objs mem 0 (p.dirs.length + 1)
  | .remove p => p ≠ KPath.top ∧ ∃ x, s.created p = some x ∧ s.objs.list x = []

/-- The path of a `populate` is taken for no other. -/
def KobjectCall.Unmistaken (root : Nat) (s : KobjectRun) : KobjectCall → Prop
  | .populate p _ => Clear root s.objs p
  | .remove _ => True

instance KobjectCall.decidableFits (root : Nat) (s : KobjectRun) (i : KobjectCall) :
    Decidable (i.Fits root s) :=
  match i with
  | .populate _ _ => inferInstanceAs (Decidable (_ ∧ _))
  | .remove p =>
    decidable_of_iff (p ≠ KPath.top ∧ ∃ x ∈ s.created p, s.objs.list x = []) Iff.rfl

instance KobjectCall.decidableUnmistaken (root : Nat) (s : KobjectRun) (i : KobjectCall) :
    Decidable (i.Unmistaken root s) :=
  match i with
  | .populate p _ => inferInstanceAs (Decidable (Clear root s.objs p))
  | .remove _ => isTrue trivial

/-- The objects are those that were created, the last call answered with the object of its path, and
a path that is taken for no other is found. -/
structure PathsKept (root : Nat) (s : KobjectRun) : Prop where
  tree : IsTree root s.objs
  agrees : Agrees root s.objs s.created
  answered : ∀ p r, s.last = some (p, r) → p ≠ KPath.top → Answered s.before s.created p r
  finds : ∀ p : KPath, p.WellFormed → Exact root s.objs p →
    fwkFindKobjectByPath root s.objs none p.text = .ok (s.created p)

theorem finds_of_agrees {root : Nat} {s : Kobjects} {c : Created} (htree : IsTree root s)
    (hagrees : Agrees root s c) {p : KPath} (hwf : p.WellFormed) (hexact : Exact root s p) :
    fwkFindKobjectByPath root s none p.text = .ok (c p) := by
  obtain ⟨found, hfound, hat⟩ := find_exact htree hwf hexact
  rw [hfound]
  refine congrArg Except.ok (Option.ext fun x => ?_)
  exact (hat x).trans (hagrees p x).symm

theorem pathsKept_start (root : Nat) : PathsKept root (kobjectStart root) := by
  have htree : IsTree root (fwkKobjectRootInit root) := by
    constructor <;> simp [fwkKobjectRootInit]
  have hnochild : ∀ {k name isDir x}, ¬ IsChild (fwkKobjectRootInit root) k name isDir x := by
    simp [IsChild, fwkKobjectRootInit]
  have hagrees : Agrees root (fwkKobjectRootInit root) (kobjectStart root).created := by
    rintro ⟨dirs, file⟩ x
    cases file with
    | some name => simp [kobjectStart, KPath.top, ObjAt, hnochild]
    | none =>
      cases dirs with
      | nil => simp [kobjectStart, KPath.top, ObjAt, WalkDirs, eq_comm]
      | cons name dirs => simp [kobjectStart, KPath.top, ObjAt, WalkDirs, hnochild]
  exact ⟨htree, hagrees, fun p r h => by simp [kobjectStart] at h,
    fun p hwf hexact => finds_of_agrees htree hagrees hwf hexact⟩

theorem kobjectStep_populate {root : Nat} {s : KobjectRun} {p : KPath} {mem : Nat → KobjMem}
    {r : Except Int (Option Nat)} {objs : Kobjects}
    (h : fwkKobjectPopulate root mem s.objs none p.text = .ok (r, objs)) :
    kobjectStep root s (.populate p mem) =
      some ⟨objs, createMissing (fun i => (mem i).kzalloc) 0 [] p.dirs p.file s.created, s.created,
        some (p, r)⟩ := by
  simp only [kobjectStep, h]

theorem pathsKept_step {root : Nat} {s : KobjectRun} {i : KobjectCall} (h : PathsKept root s)
    (hi : i.Fits root s ∧ i.Unmistaken root s) :
    ∃ t, kobjectStep root s i = some t ∧ PathsKept root t := by
  obtain ⟨hfits, hclear⟩ := hi
  cases i with
  | populate p mem =>
    obtain ⟨hwf, hfresh⟩ := hfits
    by_cases hp : p = KPath.top
    · -- the root is refused, and nothing of it is missing
      subst hp
      have hrefused : fwkKobjectPopulate root mem s.objs none KPath.top.text =
          .ok (.error (-erFault), s.objs) := by
        simp [fwkKobjectPopulate, KPath.text, KPath.endText, dirText, KPath.top]
      refine ⟨_, kobjectStep_populate hrefused, h.tree, h.agrees, ?_, fun p hwf hexact =>
        finds_of_agrees h.tree h.agrees hwf hexact⟩
      rintro p r hlast hne
      cases hlast
      exact absurd rfl hne
    · obtain ⟨r, t, hr, htree, hagrees, hanswered⟩ :=
        populate_exact h.tree h.agrees hwf hp hclear hfresh
      refine ⟨_, kobjectStep_populate hr, htree, hagrees, ?_, fun p hwf hexact =>
        finds_of_agrees htree hagrees hwf hexact⟩
      rintro p' r' hlast -
      cases hlast
      exact hanswered
  | remove p =>
    obtain ⟨hp, x, hx, hempty⟩ := hfits
    obtain ⟨htree, hagrees⟩ := remove_exact h.tree h.agrees hp hx hempty
    refine ⟨_, by rw [kobjectStep, hx]; rfl, htree, hagrees, fun _ _ hlast => by simp at hlast,
      fun p hwf hexact => finds_of_agrees htree hagrees hwf hexact⟩

/-- **The tree is indexed by paths as long as no component is taken for the beginning of another
name.** -/
theorem paths_kept {root : Nat} {is : List KobjectCall}
    (h : Meets (kobjectStep root) (fun s i => i.Fits root s ∧ i.Unmistaken root s)
      (kobjectStart root) is) :
    (∃ t, exec (kobjectStep root) (kobjectStart root) is = some t) ∧
      Always (kobjectStep root) (PathsKept root) (kobjectStart root) is :=
  run_of_meets (fun _ _ hs hi => pathsKept_step hs hi) (pathsKept_start root) h

/-- New objects from an address on. -/
def exampleKobjMem (base i : Nat) : KobjMem := ⟨base + 256 * i, true, true, true⟩

/-- Two files in one directory, and the first one removed again. -/
def exampleKobjectCalls : List KobjectCall :=
  [.populate ⟨[['d', 'e', 'v']], some ['a']⟩ (exampleKobjMem 0x78000),
    .populate ⟨[['d', 'e', 'v']], some ['b']⟩ (exampleKobjMem 0x79000),
    .remove ⟨[['d', 'e', 'v']], some ['a']⟩]

theorem paths_kept_example :
    (∃ t, exec (kobjectStep 0x77000) (kobjectStart 0x77000) exampleKobjectCalls = some t) ∧
      Always (kobjectStep 0x77000) (PathsKept 0x77000) (kobjectStart 0x77000)
        exampleKobjectCalls :=
  paths_kept (by decide)

/-- The directory `/ab/`, and then `/a/c`. -/
def mistakenCalls : List KobjectCall :=
  [.populate ⟨[['a', 'b']], none⟩ (exampleKobjMem 0x78000),
    .populate ⟨[['a']], some ['c']⟩ (exampleKobjMem 0x79000)]

/-- `/a/` is not created: the file goes into `/ab/`, and is found there under both paths. -/
theorem prefix_is_mistaken :
    Meets (kobjectStep 0x77000) (fun s i => i.Fits 0x77000 s) (kobjectStart 0x77000)
        mistakenCalls ∧
      ∃ t, exec (kobjectStep 0x77000) (kobjectStart 0x77000) mistakenCalls = some t ∧
        t.created ⟨[['a', 'b']], some ['c']⟩ = none ∧
        fwkFindKobjectByPath 0x77000 t.objs none (KPath.text ⟨[['a', 'b']], some ['c']⟩) =
          .ok (some 0x79000) ∧
        t.created ⟨[['a']], none⟩ = some 0x79000 ∧
        fwkFindKobjectByPath 0x77000 t.objs none (KPath.text ⟨[['a']], none⟩) =
          .ok (some 0x78000) :=
  ⟨by decide, _, rfl, by decide, by decide, by decide, by decide⟩

/-- The directory `/dev/` with a file in it. -/
def oneFileCalls : List KobjectCall :=
  [.populate ⟨[['d', 'e', 'v']], some ['a']⟩ (exampleKobjMem 0x78000)]

/-- Every tree that the calls have built is one. -/
theorem isTree_of_exec {root : Nat} {is : List KobjectCall} {t : KobjectRun}
    (h : Meets (kobjectStep root) (fun s i => i.Fits root s ∧ i.Unmistaken root s)
      (kobjectStart root) is)
    (hrun : exec (kobjectStep root) (kobjectStart root) is = some t) : IsTree root t.objs :=
  (always_last (run_of_meets (fun _ _ hs hi => pathsKept_step hs hi) (pathsKept_start root) h).2
    hrun).tree

theorem isTree_oneFile {t : KobjectRun}
    (hrun : exec (kobjectStep 0x77000) (kobjectStart 0x77000) oneFileCalls = some t) :
    IsTree 0x77000 t.objs :=
  isTree_of_exec (by decide) hrun

theorem remove_nonempty_intact_iff_root :
    ∃ t, exec (kobjectStep 0x77000) (kobjectStart 0x77000) oneFileCalls = some t ∧
      Intact 0x77000 t.objs (fwkKsetKobjectRemove t.objs 0x77000) :=
  ⟨_, rfl, (remove_nonempty_intact_iff (isTree_oneFile rfl) (by decide)).mpr (by decide)⟩

/-- `/dev/` is freed: it is still a member of the root, and the file still one of it. -/
theorem freed_with_a_file :
    ∃ t, exec (kobjectStep 0x77000) (kobjectStart 0x77000) oneFileCalls = some t ∧
      IsTree 0x77000 t.objs ∧ t.created ⟨[['d', 'e', 'v']], none⟩ = some 0x78000 ∧
      t.objs.list 0x78000 = [0x78100] ∧
      ¬ Intact 0x77000 t.objs (fwkKsetKobjectRemove t.objs 0x78000) ∧
      (fwkKsetKobjectRemove t.objs 0x78000).list 0x77000 = [0x78000] ∧
      (fwkKsetKobjectRemove t.objs 0x78000).live 0x78000 = false :=
  ⟨_, rfl, isTree_oneFile rfl, by decide, by decide,
    fun h => absurd (h.allocated 0x78000 (by decide)) (by decide), by decide, by decide⟩

end HeavenFox.Platform
