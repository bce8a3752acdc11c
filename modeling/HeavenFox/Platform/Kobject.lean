/-
# HeavenFox.Platform.Kobject -- the tree of kobjects

`fwk_kobject.c`: files and directories under one root.  A directory is a kset, with the
list of its members; a path is followed component by component, once to find an object and
once more to create what is missing.

The loops compare a component with the names of the members up to the length of the
component, so a name that merely begins with it is taken for it.
-/
import HeavenFox.Common.ErrorTypes
import HeavenFox.Logic.Run

namespace HeavenFox.Platform

open HeavenFox.Common HeavenFox.Logic

/-! ## Strings

A string is the characters before its end; a pointer into it is what is left from there. -/

/-- `kstrchr`: from the first such character on. -/
def kstrchr (str : List Char) (ch : Char) : Option (List Char) :=
  match str.dropWhile fun c => c != ch with
  | [] => none
  | rest => some rest

/-- `!strncmp`: the strings agree in their first `n` characters, or up to their common end. -/
def strnEq : List Char → List Char → Nat → Bool
  | _, _, 0 => true
  | [], [], _ + 1 => true
  | a :: s, b :: t, n + 1 => a == b && strnEq s t n
  | _, _, _ + 1 => false

/-! ## Objects -/

/-- A `struct fwk_kobject`: its name, and the kset it is a member of.  A kset begins with its own
kobject and has the address of that. -/
structure FwkKobject where
  name : Option (List Char)
  isDir : Bool
  sprtKset : Option Nat
  sprtParent : Option Nat
  deriving DecidableEq, Repr

/-- The objects, the members of every kset in the order of its list, and what is allocated. -/
structure Kobjects where
  kobj : Nat → FwkKobject
  list : Nat → List Nat
  live : Nat → Bool

/-- What the allocator gives for one new object: the object, its name from `vasprintk` and, for a
directory, from `kmalloc`, and its inode. -/
structure KobjMem where
  kzalloc : Nat
  vasprintk : Bool
  kmalloc : Bool
  mkInode : Bool

namespace Kobjects

def setKobj (s : Kobjects) (x : Nat) (obj : FwkKobject) : Kobjects :=
  { s with kobj := Function.update s.kobj x obj }

def setList (s : Kobjects) (k : Nat) (xs : List Nat) : Kobjects :=
  { s with list := Function.update s.list k xs }

def setLive (s : Kobjects) (x : Nat) (b : Bool) : Kobjects :=
  { s with live := Function.update s.live x b }

end Kobjects

/-- `fwk_kobject_root_init`; `root` is the address of `sgrt_fwk_kset_root`. -/
def fwkKobjectRootInit (root : Nat) : Kobjects where
  kobj := Function.update (fun _ => ⟨none, false, none, none⟩) root ⟨some ['/'], true, none, none⟩
  list := fun _ => []
  live := fun _ => false

/-- `mrt_fwk_kset_get`. -/
def mrtFwkKsetGet (s : Kobjects) (x : Nat) : Option Nat := if (s.kobj x).isDir then some x else none

/-- The loop of `fwk_kobject_join_to_kset`: the name must not be that of a member. -/
def joinCheck (s : Kobjects) (name : Option (List Char)) : List Nat → Except Stop Int
  | [] => .ok erNormal
  | each :: rest =>
    match (s.kobj each).name, name with
    | none, none => .ok (-erEmpty)
    | some nameEach, some name' =>
      if name' = nameEach then .ok (-erExisted) else joinCheck s name rest
    | _, _ => .error .fault

/-- `fwk_kobject_join_to_kset`. -/
def fwkKobjectJoinToKset (s : Kobjects) (x : Nat) : Except Stop (Int × Kobjects) :=
  match (s.kobj x).sprtKset with
  | none => .ok (-erFault, s)
  | some k => do
    let retval ← joinCheck s (s.kobj x).name (s.list k)
    if retval ≠ erNormal then .ok (retval, s)
    else
      let parent := (s.kobj x).sprtParent.getD k
      .ok (erNormal,
        (s.setList k (s.list k ++ [x])).setKobj x { s.kobj x with sprtParent := some parent })

/-- `fwk_kobject_detach_from_kset`. -/
def fwkKobjectDetachFromKset (s : Kobjects) (x : Nat) : Kobjects :=
  match (s.kobj x).sprtKset with
  | none => s
  | some k => s.setList k ((s.list k).erase x)

/-- `fwk_kobject_build_inode`. -/
def fwkKobjectBuildInode (mem : KobjMem) (s : Kobjects) (x : Nat) : Except Stop (Int × Kobjects) := do
  let (retval, s) ← fwkKobjectJoinToKset s x
  if retval ≠ erNormal then .ok (retval, s)
  else if mem.mkInode then .ok (erNormal, s)
  else .ok (-erNomem, fwkKobjectDetachFromKset s x)

/-- `fwk_kobject_del_name`. -/
def fwkKobjectDelName (s : Kobjects) (x : Nat) : Kobjects :=
  s.setKobj x { s.kobj x with name := none }

/-- `fwk_kobject_add`, with a name that has no conversion in it. -/
def fwkKobjectAdd (root : Nat) (mem : KobjMem) (s : Kobjects) (x parent : Nat) (name : List Char) :
    Except Stop (Int × Kobjects) := do
  let s := s.setKobj x
    { s.kobj x with
      sprtParent := some parent
      name := if mem.vasprintk then some name else (s.kobj x).name
      sprtKset := some ((s.kobj x).sprtKset.getD root) }
  let (retval, s) ← fwkKobjectBuildInode mem s x
  if retval ≠ erNormal then .ok (retval, fwkKobjectDelName s x) else .ok (retval, s)

/-- `fwk_kobject_del`. -/
def fwkKobjectDel (s : Kobjects) (x : Nat) : Kobjects :=
  fwkKobjectDetachFromKset (fwkKobjectDelName s x) x

/-- `fwk_kset_register`. -/
def fwkKsetRegister (root : Nat) (mem : KobjMem) (s : Kobjects) (x : Nat) :
    Except Stop (Int × Kobjects) :=
  let s := (s.setList x []).setKobj x
    { s.kobj x with isDir := true, sprtKset := some ((s.kobj x).sprtKset.getD root) }
  fwkKobjectBuildInode mem s x

/-- `fwk_kset_unregister`. -/
def fwkKsetUnregister (s : Kobjects) (x : Nat) : Kobjects :=
  if s.list x ≠ [] then s
  else
    let s := fwkKobjectDel s x
    (s.setList x []).setKobj x { s.kobj x with isDir := false, sprtKset := none }

/-- `fwk_kset_kobject_remove`. -/
def fwkKsetKobjectRemove (s : Kobjects) (x : Nat) : Kobjects :=
  if (s.kobj x).isDir then (fwkKsetUnregister s x).setLive x false
  else (fwkKobjectDel s x).setLive x false

/-! ## Creating -/

/-- The branch of `__fwk_kobject_populate_dir` for a name with a slash in it, at `newName`. -/
def populateKset (root : Nat) (mem : KobjMem) (s : Kobjects) (parent : Nat)
    (name newName : List Char) : Except Stop (Option Nat × Kobjects) :=
  let x := mem.kzalloc
  if !isValid x || !mem.vasprintk then .ok (none, s)
  else
    let fail (s : Kobjects) : Option Nat × Kobjects := (none, (fwkKobjectDel s x).setLive x false)
    -- `fwk_kset_create`, and its name is deleted again
    let s := ((s.setLive x true).setList x []).setKobj x ⟨none, false, none, some parent⟩
    if !mem.kmalloc then .ok (fail s)
    else
      let lenth := name.length - newName.length
      let s := s.setKobj x ⟨some (name.take lenth), false, mrtFwkKsetGet s parent, some parent⟩
      if (s.kobj x).sprtKset.isNone then .ok (fail s)
      else do
        let (retval, s) ← fwkKsetRegister root mem s x
        if retval ≠ erNormal then .ok (fail s) else .ok (some x, s)

/-- Its branch for a file. -/
def populateFile (root : Nat) (mem : KobjMem) (s : Kobjects) (parent : Nat) (name : List Char) :
    Except Stop (Option Nat × Kobjects) :=
  let x := mem.kzalloc
  if !isValid x then .ok (none, s)
  else
    -- `fwk_kobject_create`
    let s := (s.setLive x true).setKobj x ⟨none, false, mrtFwkKsetGet s parent, none⟩
    if (s.kobj x).sprtKset.isNone then .ok (none, s.setLive x false)
    else do
      let (retval, s) ← fwkKobjectAdd root mem s x parent name
      if retval ≠ erNormal then .ok (none, s.setLive x false) else .ok (some x, s)

/-- `__fwk_kobject_populate_dir`. -/
def __fwkKobjectPopulateDir (root : Nat) (mem : KobjMem) (s : Kobjects) (parent : Nat)
    (name : List Char) : Except Stop (Option Nat × Kobjects) :=
  match kstrchr name '/' with
  | some newName => populateKset root mem s parent name newName
  | none => populateFile root mem s parent name

/-! ## Walking along a path -/

/-- The loop over the members of a kset: the first one of the wanted kind whose name agrees with the
first characters of the component. -/
def matchMember (s : Kobjects) (k : Nat) (strStart : List Char) (lenth : Nat) (isDir : Bool) :
    Option Nat :=
  (s.list k).find? fun x =>
    match (s.kobj x).name with
    | none => false
    | some name => strnEq strStart name lenth && (s.kobj x).isDir == isDir

/-- The length of a component: up to the next slash, or to the end. -/
def componentLenth (strStart : List Char) : Option (List Char) → Nat
  | some strEnd => strStart.length - strEnd.length
  | none => strStart.length

/-- The loop of `fwk_find_kobject_by_path`.  Every round goes behind the slash at `strEnd`, but for the
first one under a head other than the root. -/
def findLoop (s : Kobjects) : Nat → Bool → List Char → Nat → Except Stop (Option Nat)
  | 0, _, _, _ => .error .spins
  | _ + 1, _, [], _ => .ok none
  | n + 1, isRoot, strEnd@(_ :: _), k =>
    match (if isRoot then strEnd.tail else strEnd) with
    | [] => .ok (some k)
    | '/' :: _ => .ok none
    | strStart =>
      match kstrchr strStart '/' with
      | none => .ok (matchMember s k strStart (componentLenth strStart none) false)
      | some strEnd =>
        match matchMember s k strStart (componentLenth strStart (some strEnd)) true with
        | none => .ok none
        | some x => findLoop s n true strEnd x

/-- `fwk_find_kobject_by_path`. -/
def fwkFindKobjectByPath (root : Nat) (s : Kobjects) (head : Option Nat) (name : List Char) :
    Except Stop (Option Nat) :=
  match (match head with | none => some root | some x => mrtFwkKsetGet s x) with
  | none => .ok none
  | some k =>
    if k = root then
      if name.head? ≠ some '/' then .ok none
      else if name.tail = [] then .ok (some k)
      else findLoop s (name.length + 1) true name k
    else findLoop s (name.length + 1) false name k

/-- The loop of `fwk_kobject_populate`; `mem` is what the allocator gives for the first object that is
created, the second one and so on. -/
def populateLoop (root : Nat) (mem : Nat → KobjMem) :
    Nat → Bool → Nat → List Char → Option Nat → Nat → Kobjects →
      Except Stop (Except Int (Option Nat) × Kobjects)
  | 0, _, _, _, _, _, _ => .error .spins
  | _ + 1, _, _, [], sprtKobj, _, s => .ok (.ok sprtKobj, s)
  | n + 1, isRoot, i, strEnd@(_ :: _), sprtKobj, k, s =>
    match (if isRoot then strEnd.tail else strEnd) with
    | [] => .ok (.ok sprtKobj, s)
    | '/' :: _ => .ok (.error (-erFault), s)
    | strStart =>
      match kstrchr strStart '/' with
      | none =>
        match matchMember s k strStart (componentLenth strStart none) false with
        | some _ => .ok (.error (-erExisted), s)
        | none => do
          match ← __fwkKobjectPopulateDir root (mem i) s k strStart with
          | (none, s) => .ok (.error (-erError), s)
          | (some x, s) => .ok (.ok (some x), s)
      | some strEnd =>
        match matchMember s k strStart (componentLenth strStart (some strEnd)) true with
        | some x => populateLoop root mem n true i strEnd (some x) x s
        | none => do
          match ← __fwkKobjectPopulateDir root (mem i) s k strStart with
          | (none, s) => .ok (.error (-erError), s)
          | (some x, s) => populateLoop root mem n true (i + 1) strEnd (some x) x s

/-- `fwk_kobject_populate`: the object, or the error its pointer stands for. -/
def fwkKobjectPopulate (root : Nat) (mem : Nat → KobjMem) (s : Kobjects) (head : Option Nat)
    (name : List Char) : Except Stop (Except Int (Option Nat) × Kobjects) :=
  match (match head with | none => some root | some x => mrtFwkKsetGet s x) with
  | none => .ok (.error (-erNomem), s)
  | some k =>
    if k = root then
      if name.head? ≠ some '/' then .ok (.error (-erFault), s)
      else if name.tail = [] then .ok (.error (-erFault), s)
      else populateLoop root mem (name.length + 1) true 0 name head k s
    else populateLoop root mem (name.length + 1) false 0 name head k s

end HeavenFox.Platform
