/-
# HeavenFox.Platform.KobjectWalks -- walking along a path

A new object goes to the end of its directory, and a file or an empty directory can be taken
off again.  `findLoop` and `populateLoop` follow a path to the object of exactly that path if,
in every directory on it, the first member of the wanted kind whose name begins with the next
component has the component for its name (`TakesExact`).
-/
import HeavenFox.Platform.KobjectTree

namespace HeavenFox.Platform

open HeavenFox.Common HeavenFox.Logic

/-- The allocator gives a whole object. -/
structure KobjMem.Ok (mem : KobjMem) : Prop where
  valid : isValid mem.kzalloc = true
  vasprintk : mem.vasprintk = true
  kmalloc : mem.kmalloc = true
  mkInode : mem.mkInode = true

instance (mem : KobjMem) : Decidable mem.Ok :=
  decidable_of_iff (isValid mem.kzalloc = true ∧ mem.vasprintk = true ∧ mem.kmalloc = true ∧
    mem.mkInode = true) ⟨fun h => ⟨h.1, h.2.1, h.2.2.1, h.2.2.2⟩, fun h => ⟨h.1, h.2, h.3, h.4⟩⟩

/-! ## One object -/

theorem joinCheck_ok {s : Kobjects} {name : List Char} :
    ∀ {l : List Nat}, (∀ y ∈ l, ∃ other, (s.kobj y).name = some other ∧ other ≠ name) →
      joinCheck s (some name) l = .ok erNormal
  | [], _ => rfl
  | y :: l, h => by
    obtain ⟨other, hother, hne⟩ := h y List.mem_cons_self
    have hrest := joinCheck_ok fun z hz => h z (List.mem_cons_of_mem y hz)
    simp only [joinCheck, hother, if_neg hne.symm, hrest]

namespace CanAdd

variable {root x k : Nat} {s : Kobjects} {name : List Char}

theorem other_names (h : CanAdd root s x k name) {y : Nat} (hy : y ∈ s.list k) :
    ∃ other, (s.kobj y).name = some other ∧ other ≠ name := by
  obtain ⟨other, hother⟩ := Option.ne_none_iff_exists'.mp (h.tree.kset k y hy).2
  refine ⟨other, hother, ?_⟩
  rintro rfl
  exact h.name_new (s.kobj y).isDir y ⟨hy, hother, rfl⟩

/-- `fwk_kobject_join_to_kset` of an object made for `k`. -/
theorem join (h : CanAdd root s x k name) {t : Kobjects} {isDir : Bool}
    (hkobj : t.kobj = Function.update s.kobj x ⟨some name, isDir, some k, some k⟩)
    (hlist : t.list = s.list) :
    fwkKobjectJoinToKset t x = .ok (erNormal, t.setList k (s.list k ++ [x])) := by
  have hself : t.kobj x = ⟨some name, isDir, some k, some k⟩ := by
    rw [hkobj, Function.update_self]
  have hcheck : joinCheck t (some name) (s.list k) = .ok erNormal := by
    refine joinCheck_ok fun y hy => ?_
    have hne : y ≠ x := ne_of_mem_of_not_mem hy (h.tree.not_mem h.free k)
    rw [hkobj, Function.update_of_ne hne]
    exact h.other_names hy
  have hset : (t.setList k (s.list k ++ [x])).setKobj x ⟨some name, isDir, some k, some k⟩ =
      t.setList k (s.list k ++ [x]) := by
    simp only [Kobjects.setKobj, Kobjects.setList, hkobj, Function.update_idem]
  simp only [fwkKobjectJoinToKset, hself, hlist, hcheck, Option.getD_some]
  simp [hset, bind, Except.bind]

theorem buildInode (h : CanAdd root s x k name) {mem : KobjMem} (hmem : mem.Ok) {t : Kobjects}
    {isDir : Bool} (hkobj : t.kobj = Function.update s.kobj x ⟨some name, isDir, some k, some k⟩)
    (hlist : t.list = s.list) (hlive : t.live = Function.update s.live x true) :
    fwkKobjectBuildInode mem t x = .ok (erNormal, s.addObj x k name isDir) := by
  have hadd : t.setList k (s.list k ++ [x]) = s.addObj x k name isDir := by
    simp only [Kobjects.setList, Kobjects.addObj, hkobj, hlist, hlive]
  simp [fwkKobjectBuildInode, h.join hkobj hlist, hmem.mkInode, hadd, bind, Except.bind]

/-- A file is created. -/
theorem populateFile_ok {mem : KobjMem} (hmem : mem.Ok) (h : CanAdd root s mem.kzalloc k name) :
    populateFile root mem s k name =
      .ok (some mem.kzalloc, s.addObj mem.kzalloc k name false) := by
  have hget : mrtFwkKsetGet s k = some k := by simp [mrtFwkKsetGet, h.dir.2]
  have hinode := h.buildInode hmem (t := ⟨Function.update s.kobj mem.kzalloc
    ⟨some name, false, some k, some k⟩, s.list, Function.update s.live mem.kzalloc true⟩)
    rfl rfl rfl
  simp only [populateFile, hmem.valid, hget, fwkKobjectAdd, hmem.vasprintk, Kobjects.setKobj,
    Kobjects.setLive, Function.update_self, Function.update_idem, Option.getD_some]
  simp [hinode, bind, Except.bind]

/-- A directory is created. -/
theorem populateKset_ok {mem : KobjMem} (hmem : mem.Ok) {newName : List Char}
    (h : CanAdd root s mem.kzalloc k name) :
    populateKset root mem s k (name ++ newName) newName =
      .ok (some mem.kzalloc, s.addObj mem.kzalloc k name true) := by
  have hnil := h.tree.list_nil h.free h.ne_root
  have hlist : Function.update s.list mem.kzalloc [] = s.list := by
    rw [← hnil, Function.update_eq_self]
  have hget : ∀ kobj list live, mrtFwkKsetGet ⟨Function.update s.kobj mem.kzalloc kobj, list, live⟩ k
      = some k := fun kobj list live => by
    simp [mrtFwkKsetGet, h.ne_dir.symm, h.dir.2]
  have hinode := h.buildInode hmem (t := ⟨Function.update s.kobj mem.kzalloc
    ⟨some name, true, some k, some k⟩, s.list, Function.update s.live mem.kzalloc true⟩)
    rfl rfl rfl
  have htake : (name ++ newName).take ((name ++ newName).length - newName.length) = name := by
    simp
  simp only [populateKset, hmem.valid, hmem.vasprintk, hmem.kmalloc, fwkKsetRegister,
    Kobjects.setKobj, Kobjects.setLive, Kobjects.setList, Function.update_self,
    Function.update_idem, hlist, hget, htake, Option.getD_some]
  simp [hinode, bind, Except.bind]

/-- `__fwk_kobject_populate_dir` of a file. -/
theorem populateDir_file {mem : KobjMem} (hmem : mem.Ok) (hname : NameOk name)
    (h : CanAdd root s mem.kzalloc k name) :
    __fwkKobjectPopulateDir root mem s k name =
      .ok (some mem.kzalloc, s.addObj mem.kzalloc k name false) := by
  rw [__fwkKobjectPopulateDir, kstrchr_none hname.no_slash]
  exact h.populateFile_ok hmem

/-- And of a directory, with more of the path behind it. -/
theorem populateDir_dir {mem : KobjMem} (hmem : mem.Ok) (hname : NameOk name) (rest : List Char)
    (h : CanAdd root s mem.kzalloc k name) :
    __fwkKobjectPopulateDir root mem s k (name ++ '/' :: rest) =
      .ok (some mem.kzalloc, s.addObj mem.kzalloc k name true) := by
  rw [__fwkKobjectPopulateDir, kstrchr_append _ hname.no_slash]
  exact h.populateKset_ok hmem

end CanAdd

/-- A file or an empty directory is removed. -/
theorem CanDrop.remove_ok {root x k : Nat} {s : Kobjects} (h : CanDrop root s x k) :
    ∃ obj, fwkKsetKobjectRemove s x = s.dropObj x k obj := by
  have hkset := (h.tree.kset k x h.mem).1
  have hne : x ≠ k := by
    rintro rfl
    exact absurd h.mem (by simp [h.empty])
  have hlist : Function.update (Function.update s.list k ((s.list k).erase x)) x [] =
      Function.update s.list k ((s.list k).erase x) := by
    rw [Function.update_comm hne.symm, ← h.empty, Function.update_eq_self]
  cases hdir : (s.kobj x).isDir with
  | false =>
    refine ⟨{ s.kobj x with name := none }, ?_⟩
    simp [fwkKsetKobjectRemove, hdir, fwkKobjectDel, fwkKobjectDelName, fwkKobjectDetachFromKset,
      Kobjects.setKobj, Kobjects.setList, Kobjects.setLive, Kobjects.dropObj, hkset]
  | true =>
    refine ⟨{ s.kobj x with name := none, isDir := false, sprtKset := none }, ?_⟩
    simp [fwkKsetKobjectRemove, hdir, fwkKsetUnregister, h.empty, fwkKobjectDel, fwkKobjectDelName,
      fwkKobjectDetachFromKset, Kobjects.setKobj, Kobjects.setList, Kobjects.setLive,
      Kobjects.dropObj, hkset, hlist]

/-! ## Components -/

/-- A member of the wanted kind whose name begins with the component. -/
def beginsWith (s : Kobjects) (name : List Char) (isDir : Bool) (x : Nat) : Bool :=
  match (s.kobj x).name with
  | none => false
  | some other => name.isPrefixOf other && (s.kobj x).isDir == isDir

/-- The first of these is the one with just this name. -/
def TakesExact (s : Kobjects) (k : Nat) (name : List Char) (isDir : Bool) : Prop :=
  ∀ x, (s.list k).find? (beginsWith s name isDir) = some x → (s.kobj x).name = some name

instance (s : Kobjects) (k : Nat) (name : List Char) (isDir : Bool) :
    Decidable (TakesExact s k name isDir) :=
  decidable_of_iff (∀ x ∈ (s.list k).find? (beginsWith s name isDir),
    (s.kobj x).name = some name) Iff.rfl

/-- A condition on every component of a path, each in the directory it is looked for in. -/
def Along (Q : Nat → List Char → Bool → Prop) (s : Kobjects) :
    Nat → List (List Char) → Option (List Char) → Prop
  | _, [], none => True
  | k, [], some name => Q k name false
  | k, name :: dirs, file =>
    Q k name true ∧ ∀ x, IsChild s k name true x → Along Q s x dirs file

instance Along.decidable {Q : Nat → List Char → Bool → Prop} (s : Kobjects)
    [∀ k name isDir, Decidable (Q k name isDir)] :
    ∀ k dirs file, Decidable (Along Q s k dirs file)
  | _, [], none => isTrue trivial
  | k, [], some name => inferInstanceAs (Decidable (Q k name false))
  | k, name :: dirs, file =>
    have := fun x => Along.decidable (Q := Q) s x dirs file
    decidable_of_iff (Q k name true ∧ ∀ x ∈ s.list k, IsChild s k name true x → Along Q s x dirs file)
      (and_congr_right fun _ => forall_congr' fun _ => ⟨fun h hx => h hx.1 hx, fun h _ => h⟩)

/-- No component is taken for the beginning of another name. -/
def Exact (root : Nat) (s : Kobjects) (p : KPath) : Prop :=
  Along (TakesExact s) s root p.dirs p.file

/-- Nor is there a file of the name where a directory is looked for, or a directory where a file
is. -/
def ClearAt (s : Kobjects) (k : Nat) (name : List Char) (isDir : Bool) : Prop :=
  TakesExact s k name isDir ∧ ∀ x, ¬ IsChild s k name (!isDir) x

instance (s : Kobjects) (k : Nat) (name : List Char) (isDir : Bool) :
    Decidable (ClearAt s k name isDir) :=
  decidable_of_iff (TakesExact s k name isDir ∧ ∀ x ∈ s.list k, ¬ IsChild s k name (!isDir) x)
    (and_congr_right fun _ => forall_congr' fun _ => ⟨fun h hx => h hx.1 hx, fun h _ => h⟩)

/-- The same along a path. -/
def Clear (root : Nat) (s : Kobjects) (p : KPath) : Prop :=
  Along (ClearAt s) s root p.dirs p.file

instance (root : Nat) (s : Kobjects) (p : KPath) : Decidable (Clear root s p) :=
  inferInstanceAs (Decidable (Along _ _ _ _ _))

theorem along_clear_of_empty {s : Kobjects} {k : Nat} (h : s.list k = [])
    (dirs : List (List Char)) (file : Option (List Char)) : Along (ClearAt s) s k dirs file := by
  have hclear : ∀ name isDir, ClearAt s k name isDir := fun name isDir =>
    ⟨fun x hx => by simp [h] at hx, fun x hx => by simp [IsChild, h] at hx⟩
  cases dirs with
  | nil =>
    cases file with
    | none => trivial
    | some name => exact hclear name false
  | cons name dirs => exact ⟨hclear name true, fun x hx => by simp [IsChild, h] at hx⟩

/-- The loop over the members finds the one with the name. -/
theorem matchMember_spec {root k : Nat} {s : Kobjects} {name : List Char} {isDir : Bool}
    (rest : List Char) (h : IsTree root s) (hexact : TakesExact s k name isDir) (x : Nat) :
    matchMember s k (name ++ rest) name.length isDir = some x ↔ IsChild s k name isDir x := by
  have hfind : matchMember s k (name ++ rest) name.length isDir =
      (s.list k).find? (beginsWith s name isDir) := by
    refine congrArg (fun p => (s.list k).find? p) (funext fun y => ?_)
    unfold beginsWith
    cases (s.kobj y).name with
    | none => rfl
    | some other => simp only [strnEq_append]
  have hdir : ∀ {y}, beginsWith s name isDir y = true → (s.kobj y).isDir = isDir := by
    intro y hy
    unfold beginsWith at hy
    cases hname : (s.kobj y).name with
    | none => simp [hname] at hy
    | some other =>
      simp only [hname, Bool.and_eq_true, beq_iff_eq] at hy
      exact hy.2
  have hsound : ∀ {y}, (s.list k).find? (beginsWith s name isDir) = some y →
      IsChild s k name isDir y := fun hy =>
    ⟨List.mem_of_find?_eq_some hy, hexact _ hy, hdir (List.find?_some hy)⟩
  rw [hfind]
  refine ⟨hsound, fun hx => ?_⟩
  have hbegins : beginsWith s name isDir x = true := by
    simp [beginsWith, hx.2.1, hx.2.2]
  obtain ⟨y, hy⟩ := Option.isSome_iff_exists.mp (List.find?_isSome.mpr ⟨x, hx.1, hbegins⟩)
  rw [hy, h.child_unique (hsound hy) hx]

theorem NameOk.exists_cons {name : List Char} (h : NameOk name) :
    ∃ ch rest, name = ch :: rest ∧ ch ≠ '/' := by
  cases name with
  | nil => exact absurd rfl h.1
  | cons ch rest =>
    refine ⟨ch, rest, rfl, ?_⟩
    rintro rfl
    exact h.no_slash List.mem_cons_self

/-! ## Finding -/

section Rounds

variable {s : Kobjects} {n k : Nat} {name rest : List Char}

/-- A round of `findLoop` for a directory. -/
theorem findLoop_dir (hname : NameOk name) :
    findLoop s (n + 1) true ('/' :: (name ++ '/' :: rest)) k =
      (matchMember s k (name ++ '/' :: rest) name.length true).elim (.ok none) fun x =>
        findLoop s n true ('/' :: rest) x := by
  have hstr := kstrchr_append rest hname.no_slash
  have hlenth : componentLenth (name ++ '/' :: rest) (some ('/' :: rest)) = name.length := by
    simp [componentLenth]
  obtain ⟨ch, tail, rfl, hch⟩ := hname.exists_cons
  rw [List.cons_append] at hstr hlenth ⊢
  simp only [findLoop, if_true, List.tail_cons]
  split
  next heq => cases heq
  next heq => exact absurd (List.cons.inj heq).1 hch
  next =>
    rw [hstr]
    simp only [hlenth]
    cases matchMember s k (ch :: (tail ++ '/' :: rest)) (ch :: tail).length true <;> rfl

/-- The round for a file. -/
theorem findLoop_file (hname : NameOk name) :
    findLoop s (n + 1) true ('/' :: name) k = .ok (matchMember s k name name.length false) := by
  have hstr := kstrchr_none hname.no_slash
  obtain ⟨ch, tail, rfl, hch⟩ := hname.exists_cons
  simp only [findLoop, if_true, List.tail_cons]
  split
  next heq => cases heq
  next heq => exact absurd (List.cons.inj heq).1 hch
  next => simp only [hstr, componentLenth]

end Rounds

section Texts

variable {name : List Char} {dirs : List (List Char)} {file : Option (List Char)}

theorem KPath.text_cons : KPath.text ⟨name :: dirs, file⟩ = '/' :: (name ++ KPath.text ⟨dirs, file⟩) := by
  simp [KPath.text, KPath.endText, dirText]

theorem KPath.exists_text (dirs : List (List Char)) (file : Option (List Char)) :
    ∃ rest, KPath.text ⟨dirs, file⟩ = '/' :: rest := by
  cases dirs with
  | nil => cases file <;> exact ⟨_, rfl⟩
  | cons name dirs => exact ⟨_, KPath.text_cons⟩

theorem KPath.WellFormed.of_cons (h : KPath.WellFormed ⟨name :: dirs, file⟩) :
    NameOk name ∧ KPath.WellFormed ⟨dirs, file⟩ :=
  ⟨h.1 name List.mem_cons_self, fun other hother => h.1 other (List.mem_cons_of_mem name hother),
    h.2⟩

theorem objAt_cons {k x : Nat} {s : Kobjects} :
    ObjAt k s ⟨name :: dirs, file⟩ x ↔
      ∃ y, IsChild s k name true y ∧ ObjAt y s ⟨dirs, file⟩ x := by
  cases file with
  | none => rfl
  | some other =>
    constructor
    · rintro ⟨z, ⟨y, hy, hz⟩, hx⟩
      exact ⟨y, hy, z, hz, hx⟩
    · rintro ⟨y, hy, z, hz, hx⟩
      exact ⟨z, ⟨y, hy, hz⟩, hx⟩

end Texts

/-- `findLoop` from a directory on. -/
theorem findLoop_walk {root : Nat} {s : Kobjects} (h : IsTree root s) {file : Option (List Char)}
    {dirs : List (List Char)} {k n : Nat} (hwf : KPath.WellFormed ⟨dirs, file⟩)
    (hexact : Along (TakesExact s) s k dirs file) (hn : dirs.length + 1 ≤ n) :
    ∃ found, findLoop s n true (KPath.text ⟨dirs, file⟩) k = .ok found ∧
      ∀ x, found = some x ↔ ObjAt k s ⟨dirs, file⟩ x := by
  induction dirs generalizing k n with
  | nil =>
    obtain ⟨n, rfl⟩ := Nat.exists_eq_add_of_le' hn
    cases file with
    | none => exact ⟨some k, rfl, fun x => by simp [ObjAt, WalkDirs, eq_comm]⟩
    | some name =>
      refine ⟨_, findLoop_file (hwf.2 name rfl), fun x => ?_⟩
      have hspec := matchMember_spec [] h hexact x
      rw [List.append_nil] at hspec
      simp [hspec, ObjAt, WalkDirs]
  | cons name dirs ih =>
    obtain ⟨n, rfl⟩ := Nat.exists_eq_add_of_le' (Nat.le_of_add_left_le hn)
    obtain ⟨hname, hwf⟩ := hwf.of_cons
    obtain ⟨hthis, hnext⟩ := hexact
    obtain ⟨rest, hrest⟩ := KPath.exists_text dirs file
    have hspec := matchMember_spec ('/' :: rest) h hthis
    rw [KPath.text_cons, hrest, findLoop_dir hname]
    cases hmatch : matchMember s k (name ++ '/' :: rest) name.length true with
    | none =>
      refine ⟨none, rfl, fun x => ⟨fun hx => absurd hx (by simp), fun hx => ?_⟩⟩
      obtain ⟨y, hy, -⟩ := objAt_cons.mp hx
      exact absurd ((hspec y).mpr hy) (by simp [hmatch])
    | some y =>
      have hy := (hspec y).mp hmatch
      obtain ⟨found, hfound, hx⟩ := ih hwf (hnext y hy) (Nat.le_of_succ_le_succ hn)
      refine ⟨found, hrest ▸ hfound, fun x => (hx x).trans ⟨fun hx => objAt_cons.mpr ⟨y, hy, hx⟩, ?_⟩⟩
      intro hx
      obtain ⟨y', hy', hx⟩ := objAt_cons.mp hx
      exact h.child_unique hy hy' ▸ hx

theorem KPath.length_text (p : KPath) (hwf : p.WellFormed) : p.dirs.length + 1 ≤ p.text.length := by
  obtain ⟨dirs, file⟩ := p
  induction dirs with
  | nil => cases file <;> simp [KPath.text, KPath.endText, dirText]
  | cons name dirs ih =>
    have hrest := ih hwf.of_cons.2
    simp only [KPath.text_cons, List.length_cons, List.length_append] at hrest ⊢
    omega

theorem KPath.text_tail (p : KPath) (hwf : p.WellFormed) (hp : p ≠ KPath.top) : p.text.tail ≠ [] := by
  obtain ⟨dirs, file⟩ := p
  cases dirs with
  | cons name dirs =>
    obtain ⟨ch, tail, rfl, -⟩ := hwf.of_cons.1.exists_cons
    simp [KPath.text_cons]
  | nil =>
    cases file with
    | none => exact absurd rfl hp
    | some name => exact (hwf.2 name rfl).1

/-- **Finding a path that is taken for no other.** -/
theorem find_exact {root : Nat} {s : Kobjects} (h : IsTree root s) {p : KPath}
    (hwf : p.WellFormed) (hexact : Exact root s p) :
    ∃ found, fwkFindKobjectByPath root s none p.text = .ok found ∧
      ∀ x, found = some x ↔ ObjAt root s p x := by
  by_cases hp : p = KPath.top
  · subst hp
    exact ⟨some root, by simp [fwkFindKobjectByPath, KPath.text, KPath.endText, dirText, KPath.top],
      fun x => by simp [ObjAt, KPath.top, WalkDirs, eq_comm]⟩
  · have hhead : p.text.head? = some '/' := by
      obtain ⟨rest, hrest⟩ := KPath.exists_text p.dirs p.file
      simp [hrest]
    obtain ⟨found, hfound, hx⟩ := findLoop_walk h hwf hexact (Nat.le_succ_of_le (p.length_text hwf))
    exact ⟨found, by simp [fwkFindKobjectByPath, hhead, p.text_tail hwf hp, hfound], hx⟩

end HeavenFox.Platform
