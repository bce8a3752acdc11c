/-
# HeavenFox.Logic.LinkedTrie -- tries built from nodes that point at each other

A trie in a heap: every node has a slot for each key symbol, which is empty or points at
a child, a pointer to its parent, and perhaps a value.  A key is a list of symbols, and
walking it from the root, slot by slot, leads to a node or to an empty slot.

`Sound` says that what can be walked to is a tree with the right parent pointers.  All
edits of a trie are edits of one slot between leaves (`walk_setSlot`): hanging a new leaf
into an empty slot and taking a leaf out of one.  Neither changes what is found under any
key, if the leaf has no value.

Deleting climbs from a leaf to the root (`PruneRules`): whoever shows what one level does
gets the climb.  `dropChild` is the scan by which a node forgets a child and finds out
whether it has others.
-/
import Mathlib.Data.List.Induction
import Mathlib.Logic.Function.Basic

namespace HeavenFox.Logic

/-- The nodes `ν` of a trie with key symbols `κ` and values `β`. -/
@[ext]
structure LinkedTrie (ν κ β : Type*) where
  child : ν → κ → Option ν
  parent : ν → Option ν
  value : ν → Option β

namespace LinkedTrie

variable {ν κ β : Type*}

/-- Two tries are equal that agree at one node and at every other node. -/
theorem ext_at (n : ν) {t t' : LinkedTrie ν κ β}
    (hself : t.child n = t'.child n ∧ t.parent n = t'.parent n ∧ t.value n = t'.value n)
    (hother : ∀ x, x ≠ n →
      t.child x = t'.child x ∧ t.parent x = t'.parent x ∧ t.value x = t'.value x) : t = t' := by
  have hall : ∀ x, t.child x = t'.child x ∧ t.parent x = t'.parent x ∧ t.value x = t'.value x := by
    intro x
    by_cases hx : x = n
    · rw [hx]
      exact hself
    · exact hother x hx
  ext1
  · exact funext fun x => (hall x).1
  · exact funext fun x => (hall x).2.1
  · exact funext fun x => (hall x).2.2

/-- Follow a list of symbols. -/
def walk (t : LinkedTrie ν κ β) : ν → List κ → Option ν
  | n, [] => some n
  | n, k :: ks => (t.child n k).bind fun m => walk t m ks

/-- What is found under a key. -/
def lookUp (t : LinkedTrie ν κ β) (root : ν) (key : List κ) : Option β :=
  (t.walk root key).bind t.value

/-- The node can be walked to. -/
def Reached (t : LinkedTrie ν κ β) (root n : ν) : Prop := ∃ key, t.walk root key = some n

/-- A node without children. -/
def Leaf (t : LinkedTrie ν κ β) (n : ν) : Prop := ∀ k, t.child n k = none

/-- What can be walked to from the root is a tree with the right parent pointers. -/
structure Sound (t : LinkedTrie ν κ β) (root : ν) : Prop where
  unique : ∀ p q n, t.walk root p = some n → t.walk root q = some n → p = q
  parent_eq : ∀ p k n, t.walk root (p ++ [k]) = some n → t.parent n = t.walk root p

theorem walk_append (t : LinkedTrie ν κ β) (n : ν) (p q : List κ) :
    t.walk n (p ++ q) = (t.walk n p).bind fun m => t.walk m q := by
  induction p generalizing n with
  | nil => rfl
  | cons k p ih =>
    simp only [List.cons_append, walk]
    cases t.child n k with
    | none => rfl
    | some m => exact ih m

theorem walk_concat (t : LinkedTrie ν κ β) (n : ν) (p : List κ) (k : κ) :
    t.walk n (p ++ [k]) = (t.walk n p).bind fun m => t.child m k := by
  rw [walk_append]
  cases t.walk n p with
  | none => rfl
  | some m => simp [walk]

theorem walk_concat_of_eq {t : LinkedTrie ν κ β} {root n : ν} {p : List κ}
    (hp : t.walk root p = some n) (k : κ) : t.walk root (p ++ [k]) = t.child n k := by
  rw [walk_concat, hp]
  rfl

/-- Only the nodes that are reached matter. -/
theorem walk_congr {t t' : LinkedTrie ν κ β} {root : ν}
    (h : ∀ n, t.Reached root n → t'.child n = t.child n) (key : List κ) :
    t'.walk root key = t.walk root key := by
  induction key using List.reverseRecOn with
  | nil => rfl
  | append_singleton key k ih =>
    rw [walk_concat, walk_concat, ih]
    cases hn : t.walk root key with
    | none => rfl
    | some n => exact congrFun (h n ⟨key, hn⟩) k

theorem Sound.congr {t t' : LinkedTrie ν κ β} {root : ν} (h : t.Sound root)
    (hchild : ∀ n, t.Reached root n → t'.child n = t.child n)
    (hparent : ∀ n, t.Reached root n → t'.parent n = t.parent n) : t'.Sound root := by
  have hwalk := walk_congr hchild
  refine ⟨fun p q n hp hq => ?_, fun p k n hn => ?_⟩
  · rw [hwalk] at hp hq
    exact h.unique p q n hp hq
  · rw [hwalk] at hn ⊢
    rw [hparent n ⟨_, hn⟩]
    exact h.parent_eq p k n hn

theorem lookUp_congr {t t' : LinkedTrie ν κ β} {root : ν}
    (hchild : ∀ n, t.Reached root n → t'.child n = t.child n)
    (hvalue : ∀ n, t.Reached root n → t'.value n = t.value n) (key : List κ) :
    t'.lookUp root key = t.lookUp root key := by
  rw [lookUp, lookUp, walk_congr hchild]
  cases hn : t.walk root key with
  | none => rfl
  | some n => exact hvalue n ⟨key, hn⟩

/-- In a tree, the root is only reached by the empty key. -/
theorem Sound.root_unique {t : LinkedTrie ν κ β} {root : ν} {p : List κ} (h : t.Sound root)
    (hp : t.walk root p = some root) : p = [] :=
  h.unique p [] root hp rfl

/-- From a root without children only the root is reached. -/
theorem walk_of_leaf {t : LinkedTrie ν κ β} {root n : ν} {p : List κ} (h : t.Leaf root)
    (hp : t.walk root p = some n) : p = [] ∧ n = root := by
  cases p with
  | nil => exact ⟨rfl, (Option.some.inj hp).symm⟩
  | cons k p =>
    rw [walk, h k] at hp
    cases hp

theorem Sound.of_leaf {t : LinkedTrie ν κ β} {root : ν} (h : t.Leaf root) : t.Sound root := by
  refine ⟨fun p q n hp hq => ?_, fun p k n hn => ?_⟩
  · rw [(walk_of_leaf h hp).1, (walk_of_leaf h hq).1]
  · have := (walk_of_leaf h hn).1
    simp at this

theorem lookUp_of_leaf {t : LinkedTrie ν κ β} {root : ν} {p : List κ} (h : t.Leaf root)
    (hp : p ≠ []) : t.lookUp root p = none := by
  rw [lookUp]
  cases hn : t.walk root p with
  | none => rfl
  | some n => exact absurd (walk_of_leaf h hn).1 hp

/-- The node that is found under a key: the one with a value. -/
def found (t : LinkedTrie ν κ β) (root : ν) (key : List κ) : Option ν :=
  (t.walk root key).filter fun n => (t.value n).isSome

theorem lookUp_eq_found (t : LinkedTrie ν κ β) (root : ν) (key : List κ) :
    t.lookUp root key = (t.found root key).bind t.value := by
  rw [lookUp, found]
  cases t.walk root key with
  | none => rfl
  | some n =>
    cases hv : t.value n with
    | none => simp [Option.filter, hv]
    | some v => simp [Option.filter, hv]

theorem walk_of_found {t : LinkedTrie ν κ β} {root n : ν} {key : List κ}
    (h : t.found root key = some n) : t.walk root key = some n :=
  (Option.filter_eq_some_iff.mp h).1

theorem found_isSome (t : LinkedTrie ν κ β) (root : ν) (key : List κ) :
    (t.found root key).isSome = (t.lookUp root key).isSome := by
  rw [lookUp_eq_found]
  cases hn : t.found root key with
  | none => rfl
  | some n =>
    obtain ⟨-, hv⟩ := Option.filter_eq_some_iff.mp hn
    exact hv.symm

/-! ## Edits -/

section Edits

variable [DecidableEq ν] [DecidableEq κ] {t : LinkedTrie ν κ β} {root n m : ν} {p : List κ} {k : κ}
  {c : Option ν}

/-- Write one slot of a node. -/
def setSlot (t : LinkedTrie ν κ β) (n : ν) (k : κ) (c : Option ν) : LinkedTrie ν κ β :=
  { t with child := Function.update t.child n (Function.update (t.child n) k c) }

/-- Write the parent pointer of a node. -/
def setParent (t : LinkedTrie ν κ β) (n : ν) (c : Option ν) : LinkedTrie ν κ β :=
  { t with parent := Function.update t.parent n c }

/-- Write the value of a node. -/
def setValue (t : LinkedTrie ν κ β) (n : ν) (v : Option β) : LinkedTrie ν κ β :=
  { t with value := Function.update t.value n v }

theorem setSlot_child_self : (t.setSlot n k c).child n k = c := by simp [setSlot]

theorem setSlot_child_ne {x : ν} {j : κ} (h : x ≠ n ∨ j ≠ k) :
    (t.setSlot n k c).child x j = t.child x j := by
  by_cases hx : x = n
  · subst hx
    have hj : j ≠ k := h.resolve_left fun hne => hne rfl
    simp [setSlot, hj]
  · simp [setSlot, hx]

omit [DecidableEq κ] in
@[simp] theorem walk_setParent (key : List κ) :
    (t.setParent n c).walk root key = t.walk root key := by
  apply walk_congr
  intro x _
  rfl

omit [DecidableEq κ] in
@[simp] theorem walk_setValue {v : Option β} (key : List κ) :
    (t.setValue n v).walk root key = t.walk root key := by
  apply walk_congr
  intro x _
  rfl

/-- **One slot between leaves.**  A slot that is empty or holds a leaf is emptied or filled with a
leaf from outside: only the key that leads into the slot is walked differently. -/
theorem walk_setSlot (h : t.Sound root) (hp : t.walk root p = some n)
    (hold : ∀ o, t.child n k = some o → t.Leaf o)
    (hnew : ∀ m, c = some m → ¬ t.Reached root m ∧ t.Leaf m) (key : List κ) :
    (t.setSlot n k c).walk root key = if key = p ++ [k] then c else t.walk root key := by
  induction key using List.reverseRecOn with
  | nil => simp [walk]
  | append_singleton key j ih =>
    rw [walk_concat, ih]
    by_cases hkey : key = p ++ [k]
    · -- beyond the slot there is nothing, before and after
      have hne : p ++ [k] ++ [j] ≠ p ++ [k] := by
        intro heq
        have := congrArg List.length heq
        simp at this
      subst hkey
      rw [if_pos rfl, if_neg hne]
      have hbefore : t.walk root (p ++ [k] ++ [j]) = none := by
        rw [walk_concat, walk_concat_of_eq hp]
        cases hc : t.child n k with
        | none => rfl
        | some o => exact hold o hc j
      rw [hbefore]
      cases hc : c with
      | none => rfl
      | some m =>
        obtain ⟨hout, hleaf⟩ := hnew m hc
        have hmn : m ≠ n := by
          rintro rfl
          exact hout ⟨p, hp⟩
        show (t.setSlot n k (some m)).child m j = none
        rw [setSlot_child_ne (Or.inl hmn)]
        exact hleaf j
    · rw [if_neg hkey]
      cases hx : t.walk root key with
      | none =>
        have hne : key ++ [j] ≠ p ++ [k] := by
          intro heq
          rw [(List.append_inj' heq rfl).1, hp] at hx
          cases hx
        rw [if_neg hne, walk_concat, hx]
        rfl
      | some x =>
        rw [walk_concat_of_eq hx]
        show (t.setSlot n k c).child x j = _
        by_cases hxn : x = n
        · subst hxn
          obtain rfl : key = p := h.unique key p x hx hp
          by_cases hjk : j = k
          · subst hjk
            rw [if_pos rfl, setSlot_child_self]
          · have hne : key ++ [j] ≠ key ++ [k] := by simpa using hjk
            rw [if_neg hne, setSlot_child_ne (Or.inr hjk)]
        · have hne : key ++ [j] ≠ p ++ [k] := by
            intro heq
            rw [(List.append_inj' heq rfl).1, hp] at hx
            exact hxn (Option.some.inj hx).symm
          rw [if_neg hne, setSlot_child_ne (Or.inl hxn)]

omit [DecidableEq κ] in
/-- The parent pointer of a node that is not reached does not matter. -/
theorem Sound.setParent (h : t.Sound root) (hm : ¬ t.Reached root m) (c : Option ν) :
    (t.setParent m c).Sound root := by
  refine h.congr (fun _ _ => rfl) fun n hn => ?_
  have hne : n ≠ m := by
    rintro rfl
    exact hm hn
  exact Function.update_of_ne hne ..

omit [DecidableEq κ] in
theorem Sound.setValue (h : t.Sound root) (n : ν) (v : Option β) :
    (t.setValue n v).Sound root := by
  apply h.congr
  · intro x _
    rfl
  · intro x _
    rfl

/-- **A value is written** under the key of its node. -/
theorem lookUp_setValue (h : t.Sound root) (hp : t.walk root p = some n) (v : Option β)
    (key : List κ) :
    (t.setValue n v).lookUp root key = if key = p then v else t.lookUp root key := by
  unfold lookUp
  rw [walk_setValue]
  by_cases hkey : key = p
  · subst hkey
    rw [if_pos rfl, hp]
    exact Function.update_self ..
  · rw [if_neg hkey]
    cases hx : t.walk root key with
    | none => rfl
    | some x =>
      have hne : x ≠ n := by
        rintro rfl
        exact hkey (h.unique key p x hx hp)
      exact Function.update_of_ne hne ..

/-- Writing a slot between leaves keeps a tree a tree. -/
theorem Sound.setSlot (h : t.Sound root) (hp : t.walk root p = some n)
    (hold : ∀ o, t.child n k = some o → t.Leaf o)
    (hnew : ∀ m, c = some m → ¬ t.Reached root m ∧ t.Leaf m ∧ t.parent m = some n) :
    (t.setSlot n k c).Sound root := by
  have hwalk := walk_setSlot h hp hold fun m hm => ⟨(hnew m hm).1, (hnew m hm).2.1⟩
  refine ⟨fun q r x hq hr => ?_, fun q j x hx => ?_⟩
  · rw [hwalk] at hq hr
    split at hq
    · rename_i hq'
      split at hr
      · rename_i hr'
        rw [hq', hr']
      · exact absurd ⟨r, hr⟩ (hnew x hq).1
    · split at hr
      · exact absurd ⟨q, hq⟩ (hnew x hr).1
      · exact h.unique q r x hq hr
  · have hparent : (t.setSlot n k c).parent = t.parent := rfl
    rw [hwalk] at hx ⊢
    rw [hparent]
    split at hx
    · rename_i heq
      obtain ⟨rfl, -⟩ := List.append_inj' heq rfl
      have hne : q ≠ q ++ [k] := by
        intro hbad
        have := congrArg List.length hbad
        simp at this
      rw [if_neg hne, hp]
      exact (hnew x hx).2.2
    · by_cases hq : q = p ++ [k]
      · -- nothing was reached through the slot
        subst hq
        rw [walk_concat, walk_concat_of_eq hp] at hx
        cases hc : t.child n k with
        | none =>
          rw [hc] at hx
          cases hx
        | some o =>
          rw [hc] at hx
          have hnone : t.child o j = none := hold o hc j
          rw [Option.bind_some, hnone] at hx
          cases hx
      · rw [if_neg hq]
        exact h.parent_eq q j x hx

/-- **A new leaf** without a value is hung into an empty slot: nothing changes under any key. -/
theorem Sound.attach (h : t.Sound root) (hp : t.walk root p = some n) (hk : t.child n k = none)
    (hout : ¬ t.Reached root m) (hleaf : t.Leaf m) (hvalue : t.value m = none) :
    let t' := (t.setParent m (some n)).setSlot n k (some m)
    t'.Sound root ∧ (∀ key, t'.walk root key =
        if key = p ++ [k] then some m else t.walk root key) ∧
      ∀ key, t'.lookUp root key = t.lookUp root key := by
  intro t'
  have h₁ : (t.setParent m (some n)).Sound root := h.setParent hout (some n)
  have hp₁ : (t.setParent m (some n)).walk root p = some n := by rw [walk_setParent, hp]
  have hold : ∀ o, (t.setParent m (some n)).child n k = some o →
      (t.setParent m (some n)).Leaf o := by
    intro o ho
    rw [show (t.setParent m (some n)).child n k = none from hk] at ho
    cases ho
  have hout₁ : ¬ (t.setParent m (some n)).Reached root m := by
    rintro ⟨key, hkey⟩
    rw [walk_setParent] at hkey
    exact hout ⟨key, hkey⟩
  have hwalk : ∀ key, t'.walk root key = if key = p ++ [k] then some m else t.walk root key := by
    intro key
    rw [← walk_setParent (t := t) (n := m) (c := some n) key]
    refine walk_setSlot h₁ hp₁ hold (fun m' hm' => ?_) key
    cases hm'
    exact ⟨hout₁, hleaf⟩
  refine ⟨?_, hwalk, fun key => ?_⟩
  · refine h₁.setSlot hp₁ hold fun m' hm' => ?_
    cases hm'
    exact ⟨hout₁, hleaf, Function.update_self ..⟩
  · have hval : t'.value = t.value := rfl
    rw [lookUp, lookUp, hwalk, hval]
    by_cases hkey : key = p ++ [k]
    · rw [if_pos hkey, hkey, walk_concat_of_eq hp, hk]
      exact hvalue
    · rw [if_neg hkey]

/-- **A leaf without a value is taken out** of its slot: nothing changes under any key, and the leaf
is not reached any more. -/
theorem Sound.detach (h : t.Sound root) (hp : t.walk root p = some n) (hk : t.child n k = some m)
    (hleaf : t.Leaf m) (hvalue : t.value m = none) :
    let t' := t.setSlot n k none
    t'.Sound root ∧ (∀ key, t'.walk root key =
        if key = p ++ [k] then none else t.walk root key) ∧
      (∀ key, t'.lookUp root key = t.lookUp root key) ∧ ¬ t'.Reached root m := by
  intro t'
  have hold : ∀ o, t.child n k = some o → t.Leaf o := by
    intro o ho
    rw [hk] at ho
    cases ho
    exact hleaf
  have hm : t.walk root (p ++ [k]) = some m := by rw [walk_concat_of_eq hp, hk]
  have hwalk : ∀ key, t'.walk root key = if key = p ++ [k] then none else t.walk root key :=
    walk_setSlot h hp hold nofun
  refine ⟨h.setSlot hp hold nofun, hwalk, fun key => ?_, ?_⟩
  · have hval : t'.value = t.value := rfl
    rw [lookUp, lookUp, hwalk, hval]
    by_cases hkey : key = p ++ [k]
    · rw [if_pos hkey, hkey, hm]
      exact hvalue.symm
    · rw [if_neg hkey]
  · rintro ⟨key, hkey⟩
    rw [hwalk] at hkey
    split at hkey
    · cases hkey
    · rename_i hne
      exact hne (h.unique key (p ++ [k]) m hkey hm)

end Edits

/-! ## Keys that lead somewhere

A trie has no superfluous nodes if every key that can be walked is the beginning of one with a
value.  While an edit is under way, that may fail for the keys up to the place of the edit. -/

section Covered

variable {t t' : LinkedTrie ν κ β} {root n : ν} {p q : List κ} {k : κ}

/-- Every key that can be walked begins one with a value, but perhaps those up to `spare`. -/
def CoveredBut (t : LinkedTrie ν κ β) (root : ν) (spare : List κ) : Prop :=
  ∀ key, key ≠ [] → t.walk root key ≠ none →
    key <+: spare ∨ ∃ path, key <+: path ∧ t.lookUp root path ≠ none

theorem CoveredBut.mono (h : t.CoveredBut root p) (hpq : p <+: q) : t.CoveredBut root q :=
  fun key hne hkey => (h key hne hkey).imp_left fun hp => hp.trans hpq

theorem CoveredBut.of_leaf (h : t.Leaf root) : t.CoveredBut root [] := by
  intro key hne hkey
  obtain ⟨n, hn⟩ := Option.ne_none_iff_exists'.mp hkey
  exact absurd (walk_of_leaf h hn).1 hne

/-- A node without children and without a value is superfluous. -/
theorem CoveredBut.used (h : t.CoveredBut root []) (hp : t.walk root p = some n) (hne : p ≠ []) :
    t.value n ≠ none ∨ ∃ k, t.child n k ≠ none := by
  have hwalk : t.walk root p ≠ none := by
    rw [hp]
    exact Option.some_ne_none n
  rcases h p hne hwalk with hnil | ⟨path, ⟨rest, rfl⟩, hfind⟩
  · exact absurd (List.prefix_nil.mp hnil) hne
  · rw [lookUp, walk_append, hp, Option.bind_some] at hfind
    cases rest with
    | nil => exact Or.inl hfind
    | cons k rest =>
      right
      refine ⟨k, fun hnone => hfind ?_⟩
      rw [walk, hnone]
      rfl

/-- Without values only the root is reached. -/
theorem CoveredBut.walk_nil (h : t.CoveredBut root []) (hvalue : ∀ key, t.lookUp root key = none)
    (hp : t.walk root p = some n) : p = [] := by
  by_contra hne
  have hwalk : t.walk root p ≠ none := by
    rw [hp]
    exact Option.some_ne_none n
  rcases h p hne hwalk with hnil | ⟨path, -, hfind⟩
  · exact hne (List.prefix_nil.mp hnil)
  · exact hfind (hvalue path)

/-- A leaf comes to the key that is spare. -/
theorem CoveredBut.attach (h : t.CoveredBut root p)
    (hwalk : ∀ key, t'.walk root key ≠ none → key = p ++ [k] ∨ t.walk root key ≠ none)
    (hfind : ∀ key, t'.lookUp root key = t.lookUp root key) : t'.CoveredBut root (p ++ [k]) := by
  intro key hne hkey
  rcases hwalk key hkey with rfl | hold
  · exact Or.inl (List.prefix_refl _)
  · simp only [hfind]
    exact h.mono (List.prefix_append p [k]) key hne hold

/-- The leaf at the key that is spare goes. -/
theorem CoveredBut.detach (h : t.CoveredBut root (p ++ [k]))
    (hwalk : ∀ key, t'.walk root key ≠ none → key ≠ p ++ [k] ∧ t.walk root key ≠ none)
    (hfind : ∀ key, t'.lookUp root key = t.lookUp root key) : t'.CoveredBut root p := by
  intro key hne hkey
  obtain ⟨hother, hold⟩ := hwalk key hkey
  simp only [hfind]
  refine (h key hne hold).imp_left fun hpre => ?_
  exact (List.prefix_concat_iff.mp hpre).resolve_left hother

/-- The key that is spare turns out to be of use. -/
theorem CoveredBut.stop (h : t.CoveredBut root p) (hp : t.walk root p = some n)
    (huse : t.value n ≠ none ∨ ∃ k, t.child n k ≠ none) : t.CoveredBut root [] := by
  -- some key with a value begins with `p`
  obtain ⟨path, hpath, hfind⟩ : ∃ path, p <+: path ∧ t.lookUp root path ≠ none := by
    rcases huse with hvalue | ⟨k, hchild⟩
    · refine ⟨p, List.prefix_refl p, ?_⟩
      rw [lookUp, hp]
      exact hvalue
    · have hwalk : t.walk root (p ++ [k]) ≠ none := by
        rw [walk_concat_of_eq hp]
        exact hchild
      rcases h (p ++ [k]) (by simp) hwalk with hpre | ⟨path, hpath, hfind⟩
      · have hlen := hpre.length_le
        rw [List.length_append, List.length_singleton] at hlen
        omega
      · exact ⟨path, (List.prefix_append p [k]).trans hpath, hfind⟩
  intro key hne hkey
  right
  rcases h key hne hkey with hpre | hcovered
  · exact ⟨path, hpre.trans hpath, hfind⟩
  · exact hcovered

/-- A value is written under the key that is spare. -/
theorem CoveredBut.bind (h : t.CoveredBut root p)
    (hwalk : ∀ key, t'.walk root key = t.walk root key) (hbound : t'.lookUp root p ≠ none)
    (hfind : ∀ key, t.lookUp root key ≠ none → t'.lookUp root key ≠ none) :
    t'.CoveredBut root [] := by
  intro key hne hkey
  right
  rw [hwalk] at hkey
  rcases h key hne hkey with hpre | ⟨path, hpath, hsome⟩
  · exact ⟨p, hpre, hbound⟩
  · exact ⟨path, hpath, hfind path hsome⟩

/-- The value under a key is removed. -/
theorem CoveredBut.clear (h : t.CoveredBut root [])
    (hwalk : ∀ key, t'.walk root key = t.walk root key)
    (hfind : ∀ key, key ≠ p → t'.lookUp root key = t.lookUp root key) : t'.CoveredBut root p := by
  intro key hne hkey
  rw [hwalk] at hkey
  rcases h key hne hkey with hnil | ⟨path, hpath, hsome⟩
  · exact absurd (List.prefix_nil.mp hnil) hne
  · by_cases hp : path = p
    · rw [hp] at hpath
      exact Or.inl hpath
    · rw [← hfind path hp] at hsome
      exact Or.inr ⟨path, hpath, hsome⟩

end Covered

/-! ## Pruning

An implementation keeps a trie in its states `σ`, seen through `view` while the state is
`Good`.  Its `del` forgets a child of a node and, if the node is left with neither a child nor
a value, calls itself for the parent and releases the node. -/

section Prune

variable {σ ε : Type*} (view : σ → LinkedTrie ν κ β) (root : ν) (Good : σ → Prop)

/-- What pruning leaves behind: nothing has changed under any key, and nothing is reached that was
not reached before. -/
structure Pruned (s s' : σ) : Prop where
  good : Good s'
  find : ∀ key, (view s').lookUp root key = (view s).lookUp root key
  less : ∀ key x, (view s').walk root key = some x → (view s).walk root key = some x

variable {view root Good}

theorem Pruned.trans {s s' s'' : σ} (h : Pruned view root Good s s')
    (h' : Pruned view root Good s' s'') : Pruned view root Good s s'' where
  good := h'.good
  find := fun key => (h'.find key).trans (h.find key)
  less := fun key x hkey => h.less key x (h'.less key x hkey)

theorem Pruned.unreached {s s' : σ} {n : ν} (h : Pruned view root Good s s')
    (hn : ¬ (view s).Reached root n) : ¬ (view s').Reached root n := by
  rintro ⟨key, hkey⟩
  exact hn ⟨key, h.less key n hkey⟩

variable [DecidableEq ν]

/-- The end of a call of `del`: it goes on to the parent of `n`, and then `n` is released. -/
def climb (view : σ → LinkedTrie ν κ β) (root : ν)
    (del : Nat → σ → Option ν → Option ν → Except ε σ) (free : σ → ν → σ) (rounds : Nat) (s : σ)
    (n : ν) : Except ε σ := do
  let s ← del rounds s ((view s).parent n) (some n)
  if n ≠ root then pure (free s n) else pure s

/-- What an implementation has to show: what one level of `del` does for a child that is a leaf
without a value, and that a node that is not reached may be released. -/
structure PruneRules (view : σ → LinkedTrie ν κ β) (root : ν) (Good : σ → Prop)
    (del : Nat → σ → Option ν → Option ν → Except ε σ) (free : σ → ν → σ) : Prop where
  sound : ∀ s, Good s → (view s).Sound root
  rootParent : ∀ s, Good s → (view s).parent root = none
  stop : ∀ rounds s child, del (rounds + 1) s none child = .ok s
  release : ∀ s n, Good s → ¬ (view s).Reached root n → Pruned view root Good s (free s n)
  level : ∀ rounds s n m p k, Good s → (view s).walk root p = some n →
    (view s).walk root (p ++ [k]) = some m → (view s).Leaf m → (view s).value m = none →
    ∃ s₁, Pruned view root Good s s₁ ∧ ¬ (view s₁).Reached root m ∧
      (del (rounds + 1) s (some n) (some m) = .ok s₁ ∨
        ((view s₁).walk root p = some n ∧ (view s₁).Leaf n ∧ (view s₁).value n = none ∧
          del (rounds + 1) s (some n) (some m) = climb view root del free rounds s₁ n))

variable {del : Nat → σ → Option ν → Option ν → Except ε σ} {free : σ → ν → σ} {s : σ} {n m : ν}
  {p : List κ} {k : κ} {rounds : Nat}

omit [DecidableEq ν] in
/-- The parent of a node below the root. -/
theorem Sound.parent_of_walk {t : LinkedTrie ν κ β} (h : t.Sound root)
    (hn : t.walk root (p ++ [k]) = some n) :
    ∃ n', t.walk root p = some n' ∧ t.parent n = some n' := by
  have hparent := h.parent_eq p k n hn
  rw [walk_concat] at hn
  cases hw : t.walk root p with
  | none =>
    rw [hw] at hn
    cases hn
  | some n' => exact ⟨n', rfl, hparent.trans hw⟩

/-- **Pruning from a child upwards.** -/
theorem PruneRules.child (h : PruneRules view root Good del free) (hs : Good s)
    (hp : (view s).walk root p = some n) (hm : (view s).walk root (p ++ [k]) = some m)
    (hleaf : (view s).Leaf m) (hvalue : (view s).value m = none)
    (hrounds : p.length + 1 < rounds) :
    ∃ s', del rounds s (some n) (some m) = .ok s' ∧ Pruned view root Good s s' ∧
      ¬ (view s').Reached root m := by
  -- from the node up to the root: the key loses its last symbol with every level
  induction p using List.reverseRecOn generalizing s n m k rounds with
  | nil =>
    obtain ⟨r, rfl⟩ : ∃ r, rounds = r + 2 := ⟨rounds - 2, by simp at hrounds; omega⟩
    obtain rfl : root = n := Option.some.inj hp
    obtain ⟨s₁, hpruned, hout, hcall | ⟨-, -, -, hcall⟩⟩ :=
      h.level (r + 1) s root m [] k hs hp hm hleaf hvalue
    · exact ⟨s₁, hcall, hpruned, hout⟩
    · -- the root has no parent and is not released
      refine ⟨s₁, ?_, hpruned, hout⟩
      rw [hcall, climb, h.rootParent s₁ hpruned.good, h.stop]
      simp [bind, Except.bind, pure, Except.pure]
  | append_singleton p j ih =>
    obtain ⟨r, rfl⟩ : ∃ r, rounds = r + 1 := ⟨rounds - 1, by omega⟩
    obtain ⟨s₁, hpruned, hout, hcall | ⟨hn₁, hleaf₁, hvalue₁, hcall⟩⟩ :=
      h.level r s n m (p ++ [j]) k hs hp hm hleaf hvalue
    · exact ⟨s₁, hcall, hpruned, hout⟩
    · have hsound := h.sound s₁ hpruned.good
      obtain ⟨n', hn', hparent⟩ := hsound.parent_of_walk hn₁
      have hr : p.length + 1 < r := by
        simp at hrounds
        omega
      obtain ⟨s₂, hcall₂, hpruned₂, hout₂⟩ := ih hpruned.good hn' hn₁ hleaf₁ hvalue₁ hr
      have hroot : n ≠ root := by
        rintro rfl
        have := hsound.root_unique hn₁
        simp at this
      have hfree := h.release s₂ n hpruned₂.good hout₂
      refine ⟨free s₂ n, ?_, (hpruned.trans hpruned₂).trans hfree,
        hfree.unreached (hpruned₂.unreached hout)⟩
      rw [hcall, climb, hparent, hcall₂]
      simp [hroot, bind, Except.bind, pure, Except.pure]

/-- **Pruning from a leaf below the root**, the end of a call for the leaf itself. -/
theorem PruneRules.climb_ok (h : PruneRules view root Good del free) (hs : Good s)
    (hn : (view s).walk root p = some n) (hp : p ≠ []) (hleaf : (view s).Leaf n)
    (hvalue : (view s).value n = none) (hrounds : p.length < rounds) :
    ∃ s', climb view root del free rounds s n = .ok s' ∧ Pruned view root Good s s' := by
  obtain ⟨p', j, rfl⟩ : ∃ p' j, p = p' ++ [j] :=
    ⟨p.dropLast, p.getLast hp, (List.dropLast_concat_getLast hp).symm⟩
  obtain ⟨n', hn', hparent⟩ := (h.sound s hs).parent_of_walk hn
  have hr : p'.length + 1 < rounds := by simpa using hrounds
  obtain ⟨s₁, hcall, hpruned, hout⟩ := h.child hs hn' hn hleaf hvalue hr
  have hroot : n ≠ root := by
    rintro rfl
    have := (h.sound s hs).root_unique hn
    simp at this
  refine ⟨free s₁ n, ?_, hpruned.trans (h.release s₁ n hpruned.good hout)⟩
  rw [climb, hparent, hcall]
  simp [hroot, bind, Except.bind, pure, Except.pure]

end Prune

end LinkedTrie

/-! ## Forgetting a child -/

section DropChild

variable {ν κ : Type*} [DecidableEq ν] [DecidableEq κ]

/-- Scan the slots `ks`: empty the one that holds `child` and count those in use.  The scan stops
at the child if one was in use before it; the second result tells whether any other is. -/
def dropChild (child : Option ν) : List κ → (κ → Option ν) → Nat → (κ → Option ν) × Bool
  | [], slots, count => (slots, decide (count ≠ 0))
  | k :: ks, slots, count =>
    if slots k = child then
      if count ≠ 0 then (Function.update slots k none, true)
      else dropChild child ks (Function.update slots k none) count
    else dropChild child ks slots (if (slots k).isSome then count + 1 else count)

variable {child : Option ν} {slots : κ → Option ν} {ks : List κ} {k : κ} {count : Nat}

/-- A scan that meets no child to forget leaves the slots as they are. -/
theorem dropChild_absent (h : ∀ k ∈ ks, slots k = child → child = none) :
    dropChild child ks slots count =
      (slots, decide (count ≠ 0 ∨ ∃ k ∈ ks, slots k ≠ none)) := by
  induction ks generalizing count with
  | nil => simp [dropChild]
  | cons k ks ih =>
    have hrest : ∀ j ∈ ks, slots j = child → child = none :=
      fun j hj => h j (List.mem_cons_of_mem k hj)
    rw [dropChild]
    by_cases hk : slots k = child
    · obtain rfl : child = none := h k (List.mem_cons_self ..) hk
      have hsame : Function.update slots k none = slots := by
        rw [← hk]
        exact Function.update_eq_self k slots
      rw [if_pos hk, hsame, ih hrest]
      by_cases hcount : count ≠ 0
      · simp [hcount]
      · simp [hcount, hk]
    · rw [if_neg hk, ih hrest]
      cases hslot : slots k with
      | none => simp [hslot]
      | some n => simp [hslot]

/-- A scan that meets the child once empties its slot. -/
theorem dropChild_mem {n : ν} (hnodup : ks.Nodup) (hmem : k ∈ ks) (hk : slots k = some n)
    (hother : ∀ j, slots j = some n → j = k) :
    dropChild (some n) ks slots count =
      (Function.update slots k none, decide (count ≠ 0 ∨ ∃ j ∈ ks, j ≠ k ∧ slots j ≠ none)) := by
  induction ks generalizing count with
  | nil => cases hmem
  | cons i ks ih =>
    obtain ⟨hi, hnodup⟩ := List.nodup_cons.mp hnodup
    rw [dropChild]
    by_cases hik : slots i = some n
    · obtain rfl : i = k := hother i hik
      rw [if_pos hik]
      by_cases hcount : count ≠ 0
      · simp [hcount]
      · -- the rest of the scan meets the child no more
        have habsent : ∀ j ∈ ks, Function.update slots i none j = some n → some n = none := by
          intro j hj heq
          have hji : j ≠ i := by
            rintro rfl
            exact hi hj
          rw [Function.update_of_ne hji] at heq
          exact absurd (hother j heq) hji
        rw [if_neg hcount, dropChild_absent habsent]
        congr 1
        rw [decide_eq_decide]
        constructor
        · rintro (h0 | ⟨j, hj, hne⟩)
          · exact Or.inl h0
          · have hji : j ≠ i := by
              rintro rfl
              exact hi hj
            rw [Function.update_of_ne hji] at hne
            exact Or.inr ⟨j, List.mem_cons_of_mem i hj, hji, hne⟩
        · rintro (h0 | ⟨j, hj, hji, hne⟩)
          · exact Or.inl h0
          · refine Or.inr ⟨j, (List.mem_cons.mp hj).resolve_left hji, ?_⟩
            rw [Function.update_of_ne hji]
            exact hne
    · have hne : i ≠ k := by
        rintro rfl
        exact hik hk
      rw [if_neg hik, ih hnodup ((List.mem_cons.mp hmem).resolve_left (Ne.symm hne))]
      congr 1
      rw [decide_eq_decide]
      cases hslot : slots i with
      | none => simp [hslot]
      | some o => simp [hslot, hne]

end DropChild

end HeavenFox.Logic
