/-
# HeavenFox.Kernel.MailboxRegistry -- the global list of mailboxes

`mailbox_init` copies a name into the mailbox object and puts the object on the list
`sgrt_kernel_mailboxs`; `mailbox_find` compares the stored names as strings.  A mailbox
object is given here by the memory from its start on, so that what a string comparison
reads behind a name without a terminator is there to be read: first the rest of the
array, then the tid, then the counter.

`mailbox_insert` looks for the last mailbox whose tid is not larger, and puts the new
one *before* it; with a smallest tid it puts it at the end.  Either way the list is out
of order as soon as two tids differ (`mailboxes_sorted_iff`).
-/
import HeavenFox.Common.ApiString
import HeavenFox.Kernel.Mailbox

namespace HeavenFox.Kernel

open HeavenFox.Common HeavenFox.Logic

/-! ## Data -/

/-- `MAILBOX_NAME_LEN`. -/
def mailboxNameLen : Nat := 32

/-- The offset of `tid` in `struct mailbox`; the name comes first. -/
def mailboxTid : Nat := 32

/-- The offset of `num_mails`. -/
def mailboxNumMails : Nat := 36

/-- The offset of `sgrt_lock`, behind the two list heads. -/
def mailboxSgrtLock : Nat := 56

/-- All link fields, and the memory from the start of each mailbox object on. -/
structure Registry where
  links : Links MailNode
  obj : ObjPtr → Mem

/-- A 32-byte array on the stack of a caller. -/
abbrev StackLabel := { label : Nat // ValidBlock label mailboxNameLen }

namespace Registry

/-- The `tid` of a mailbox. -/
def tid (s : Registry) (b : ObjPtr) : Int := asInt32 (load32 (s.obj b) mailboxTid)

/-- The node of a mailbox on the global list. -/
def node (b : ObjPtr) : MailNode := .boxLink b

/-! ## The list -/

/-- `mailbox_find`; an entry that is the head of another list is no mailbox. -/
def mailboxFind (rounds : Nat) (s : Registry) (name : Option CString) :
    Except Stop (Option ObjPtr) :=
  match name with
  | none => .ok none
  | some name =>
    if name.val = [] then .ok none
    else
      foreachEntry s.links.next .sgrtKernelMailboxs
        (fun pos =>
          match pos with
          | .boxLink b => .ok (if strEqualAt (s.obj b) 0 name.val then some b else none)
          | _ => .error .fault)
        rounds (s.links.next .sgrtKernelMailboxs)

/-- The loop of `mailbox_insert`: `last` is one behind the cursor. -/
def lastNotLarger (s : Registry) (b : ObjPtr) :
    Nat → MailNode → Option MailNode → Except Stop (Option MailNode)
  | 0, _, _ => .error .spins
  | rounds + 1, pos, last =>
    if pos = .sgrtKernelMailboxs then .ok last
    else
      match pos with
      | .boxLink box =>
        if s.tid box > s.tid b then .ok last
        else lastNotLarger s b rounds (s.links.next pos) (some pos)
      | _ => .error .fault

/-- `mailbox_insert`. -/
def mailboxInsert (rounds : Nat) (s : Registry) (b : ObjPtr) : Except Stop Registry :=
  if mrtListHeadEmpty s.links .sgrtKernelMailboxs then
    .ok { s with links := listHeadAddTail s.links .sgrtKernelMailboxs (node b) }
  else do
    let sprtLast ← s.lastNotLarger b rounds (s.links.next .sgrtKernelMailboxs) none
    match sprtLast with
    | none => pure { s with links := listHeadAddTail s.links .sgrtKernelMailboxs (node b) }
    | some last => pure { s with links := listHeadAddTail s.links last (node b) }

/-- `mailbox_insert`, once for each mailbox. -/
def insertAll (rounds : Nat) (s : Registry) (bs : List ObjPtr) : Except Stop Registry :=
  bs.foldlM (mailboxInsert rounds) s

/-- The mailboxes on the global list, in order. -/
def Lists (s : Registry) (xs : List ObjPtr) : Prop :=
  Ring s.links .sgrtKernelMailboxs (xs.map node)

/-! ## Insertion -/

/-- Where `mailbox_insert` puts a mailbox: at the end when every tid is larger, else before the last
of the first mailboxes whose tids are not larger. -/
inductive Placed (s : Registry) (b : ObjPtr) : List ObjPtr → List ObjPtr → Prop
  | behind (xs : List ObjPtr) (h : ∀ x, xs.head? = some x → s.tid b < s.tid x) :
    Placed s b xs (xs ++ [b])
  | early (pre post : List ObjPtr) (last : ObjPtr) (h : s.tid last ≤ s.tid b) :
    Placed s b (pre ++ last :: post) (pre ++ b :: last :: post)

variable {s s' : Registry} {b x : ObjPtr} {xs ys pre post bs : List ObjPtr} {rounds : Nat}

theorem Lists.nodup (h : s.Lists xs) : xs.Nodup := h.members_nodup.of_map

theorem Lists.length_lt (h : s.Lists xs) : xs.length < walkRounds := by
  have := ObjPtr.length_of_nodup h.nodup
  unfold walkRounds
  omega

theorem Placed.perm (h : Placed s b xs ys) : ys.Perm (b :: xs) := by
  cases h with
  | behind _ _ => exact List.perm_append_singleton b xs
  | early pre post last _ => exact List.perm_middle

theorem Placed.sublist (h : Placed s b xs ys) : xs.Sublist ys := by
  cases h with
  | behind _ _ => exact List.sublist_append_left xs [b]
  | early pre post last _ => exact (List.sublist_cons_self b _).append_left pre

theorem lastNotLarger_node (last : Option MailNode) :
    s.lastNotLarger b (rounds + 1) (node x) last =
      if s.tid x > s.tid b then .ok last
      else s.lastNotLarger b rounds (s.links.next (node x)) (some (node x)) := by
  show s.lastNotLarger b (rounds + 1) (.boxLink x) last = _
  rw [lastNotLarger, if_neg nofun]
  rfl

/-- The walk over the rest `post` of the list, with `pre` passed already, stops in front of the first
mailbox whose tid is larger. -/
theorem lastNotLarger_path (h : s.Lists (pre ++ post)) (hn : post.length < rounds)
    (hpre : ∀ x, pre.getLast? = some x → s.tid x ≤ s.tid b) :
    ∃ front back, pre ++ post = front ++ back ∧
      s.lastNotLarger b rounds ((post.map node).headD .sgrtKernelMailboxs) (pre.getLast?.map node) =
        .ok (front.getLast?.map node) ∧
      (∀ x, front.getLast? = some x → s.tid x ≤ s.tid b) ∧
      ∀ x, back.head? = some x → s.tid b < s.tid x := by
  induction post generalizing pre rounds with
  | nil =>
    obtain ⟨n, rfl⟩ : ∃ n, rounds = n + 1 := ⟨rounds - 1, by simp at hn; omega⟩
    exact ⟨pre, [], rfl, by simp [lastNotLarger], hpre, by simp⟩
  | cons x post ih =>
    obtain ⟨n, rfl⟩ : ∃ n, rounds = n + 1 := ⟨rounds - 1, by simp at hn; omega⟩
    rw [List.map_cons, List.headD_cons, lastNotLarger_node]
    by_cases hlarger : s.tid x > s.tid b
    · refine ⟨pre, x :: post, rfl, ?_, hpre, ?_⟩
      · exact if_pos hlarger
      · intro y hy
        cases hy
        exact hlarger
    · have hsplit : pre ++ x :: post = (pre ++ [x]) ++ post := by simp
      rw [hsplit] at h ⊢
      have hnext : s.links.next (node x) = (post.map node).headD .sgrtKernelMailboxs := by
        have r : Ring s.links .sgrtKernelMailboxs (pre.map node ++ node x :: post.map node) := by
          simpa [Lists] using h
        exact r.next_member
      have hlast : (pre ++ [x]).getLast?.map node = some (node x) := by simp
      obtain ⟨front, back, heq, hwalk, hfront, hback⟩ :=
        ih h (show post.length < n by simp at hn; omega) (by
          intro y hy
          obtain rfl : x = y := by simpa using hy
          omega)
      refine ⟨front, back, heq, ?_, hfront, hback⟩
      rw [hlast, ← hnext] at hwalk
      rw [if_neg hlarger]
      exact hwalk

/-- A member of the ring as the place before which a node is linked. -/
theorem addTail_member {l : Links MailNode} {last y : MailNode} {front back : List MailNode}
    (r : Ring l .sgrtKernelMailboxs (front ++ last :: back)) :
    listHeadAddTail l last y = l.insertAfter (Ring.before .sgrtKernelMailboxs front) y := by
  simp only [listHeadAddTail, Links.insertAfter, r.prev_member, r.next_before]

theorem node_fresh (hb : b ∉ xs) : node b ∉ MailNode.sgrtKernelMailboxs :: xs.map node := by
  rw [List.mem_cons, not_or]
  refine ⟨nofun, ?_⟩
  intro hmem
  obtain ⟨x, hx, heq⟩ := List.mem_map.mp hmem
  cases heq
  exact hb hx

/-- A mailbox behind all others. -/
theorem Lists.addTail (h : s.Lists xs) (hb : b ∉ xs) :
    Lists { s with links := listHeadAddTail s.links .sgrtKernelMailboxs (node b) } (xs ++ [b]) := by
  show Ring (listHeadAddTail s.links .sgrtKernelMailboxs (node b)) _ _
  rw [listHeadAddTail_eq h, List.map_append]
  have r : Ring s.links .sgrtKernelMailboxs (xs.map node ++ []) := by
    rw [List.append_nil]
    exact h
  exact r.insertAfter (by rw [List.append_nil]; exact node_fresh hb)

/-- A mailbox in front of another one. -/
theorem Lists.addBefore {front back : List ObjPtr} {last : ObjPtr}
    (h : s.Lists (front ++ last :: back)) (hb : b ∉ front ++ last :: back) :
    Lists { s with links := listHeadAddTail s.links (node last) (node b) }
      (front ++ b :: last :: back) := by
  have r : Ring s.links .sgrtKernelMailboxs (front.map node ++ node last :: back.map node) := by
    simpa [Lists] using h
  show Ring (listHeadAddTail s.links (node last) (node b)) _ _
  rw [addTail_member r, List.map_append, List.map_cons, List.map_cons]
  exact r.insertAfter (by simpa using node_fresh hb)

/-- **`mailbox_insert`** puts a mailbox that is not on the list at a place of it. -/
theorem mailboxInsert_spec (h : s.Lists xs) (hb : b ∉ xs) (hn : xs.length < rounds) :
    ∃ s' ys, s.mailboxInsert rounds b = .ok s' ∧ s'.obj = s.obj ∧ s'.Lists ys ∧
      Placed s b xs ys := by
  have htail := h.addTail hb
  by_cases hempty : mrtListHeadEmpty s.links .sgrtKernelMailboxs = true
  · have hnil : xs = [] := by simpa using (mrtListHeadEmpty_iff h).mp hempty
    refine ⟨{ s with links := listHeadAddTail s.links .sgrtKernelMailboxs (node b) }, xs ++ [b],
      by rw [mailboxInsert, if_pos hempty], rfl, htail, ?_⟩
    exact .behind xs (by simp [hnil])
  · have hfirst : s.links.next .sgrtKernelMailboxs =
        (xs.map node).headD .sgrtKernelMailboxs := by
      cases xs with
      | nil => exact h.path.1
      | cons x xs => exact h.path.1.1
    have hall : s.Lists ([] ++ xs) := h
    obtain ⟨front, back, heq, hwalk, hfront, hback⟩ :=
      lastNotLarger_path (b := b) hall hn (by simp)
    rw [← hfirst] at hwalk
    rw [List.nil_append] at heq
    rw [mailboxInsert, if_neg hempty]
    cases front using List.reverseRecOn with
    | nil =>
      refine ⟨{ s with links := listHeadAddTail s.links .sgrtKernelMailboxs (node b) },
        xs ++ [b], ?_, rfl, htail, .behind xs ?_⟩
      · show (s.lastNotLarger b rounds _ none >>= _) = _
        rw [show s.lastNotLarger b rounds (s.links.next .sgrtKernelMailboxs) none = .ok none from
          hwalk]
        rfl
      · rw [heq]
        exact hback
    | append_singleton front last =>
      have hlast : s.tid last ≤ s.tid b := hfront last (by simp)
      rw [List.append_assoc, List.singleton_append] at heq
      subst heq
      refine ⟨{ s with links := listHeadAddTail s.links (node last) (node b) }, _, ?_, rfl,
        h.addBefore hb, .early front back last hlast⟩
      have hwalk' : s.lastNotLarger b rounds (s.links.next .sgrtKernelMailboxs) none =
          .ok (some (node last)) := by simpa using hwalk
      simp only [hwalk', bind, Except.bind, pure, Except.pure]

/-! ## The order of the list -/

/-- The list is sorted by non-decreasing tid. -/
def Sorted (s : Registry) (xs : List ObjPtr) : Prop := xs.Pairwise fun x y => s.tid x ≤ s.tid y

/-- The insertion keeps the list sorted only if the list is empty or has a mailbox with the same
tid. -/
theorem Placed.tid_of_sorted (h : Placed s b xs ys) (hsorted : s.Sorted ys) :
    xs = [] ∨ ∃ x ∈ xs, s.tid x = s.tid b := by
  cases h with
  | behind _ hlarger =>
    cases xs with
    | nil => exact Or.inl rfl
    | cons x xs =>
      have hle : s.tid x ≤ s.tid b :=
        (List.pairwise_append.mp hsorted).2.2 x List.mem_cons_self b List.mem_cons_self
      have hlt := hlarger x rfl
      omega
  | early pre post last hlast =>
    have hle : s.tid b ≤ s.tid last :=
      (List.pairwise_cons.mp (List.pairwise_append.mp hsorted).2.1).1 last List.mem_cons_self
    exact Or.inr ⟨last, by simp, by omega⟩

/-- Sorted after the insertion, a list whose members have the same tid has members with the tid of the
new one. -/
theorem Placed.same_tid (h : Placed s b xs ys) (hsorted : s.Sorted ys)
    (hall : ∀ c ∈ xs, ∀ d ∈ xs, s.tid c = s.tid d) : ∀ c ∈ xs, s.tid c = s.tid b := by
  intro c hc
  rcases h.tid_of_sorted hsorted with hnil | ⟨x, hx, hxb⟩
  · rw [hnil] at hc
    exact absurd hc List.not_mem_nil
  · exact (hall c hc x hx).trans hxb

theorem insertAll_append {s₁ : Registry} (hrun : insertAll rounds s bs = .ok s₁)
    (hinsert : s₁.mailboxInsert rounds b = .ok s') :
    insertAll rounds s (bs ++ [b]) = .ok s' := by
  have hfold : insertAll rounds s (bs ++ [b]) =
      insertAll rounds s bs >>= fun s => s.insertAll rounds [b] := List.foldlM_append
  rw [hfold, hrun]
  show (s₁.mailboxInsert rounds b >>= fun s => pure s) = _
  rw [hinsert]
  rfl

/-- **All insertions**: the list holds each mailbox once, and is sorted exactly if they all have the
same tid.  By induction on the sequence, the last insertion last; a list that is out of order stays
out of order. -/
theorem mailboxes_sorted_iff (s : Registry) (bs : List ObjPtr) (hempty : s.Lists [])
    (hnodup : bs.Nodup) :
    ∃ s' xs, insertAll walkRounds s bs = .ok s' ∧ s'.obj = s.obj ∧ s'.Lists xs ∧
      (∀ b, xs.count b = bs.count b) ∧
      (s'.Sorted xs ↔ ∀ b ∈ bs, ∀ c ∈ bs, s.tid b = s.tid c) := by
  induction bs using List.reverseRecOn with
  | nil => exact ⟨s, [], rfl, rfl, hempty, fun _ => rfl, by simp [Sorted]⟩
  | append_singleton bs b ih =>
    rw [List.nodup_append] at hnodup
    obtain ⟨hbs, -, hapart⟩ := hnodup
    obtain ⟨s₁, xs, hrun, hobj, hlists, hcount, hiff⟩ := ih hbs
    have hperm : xs.Perm bs := List.perm_iff_count.mpr hcount
    have hb : b ∉ xs := fun hmem => hapart b (hperm.mem_iff.mp hmem) b List.mem_cons_self rfl
    obtain ⟨s', ys, hinsert, hobj', hlists', hplaced⟩ :=
      mailboxInsert_spec hlists hb hlists.length_lt
    have htid : ∀ x, s'.tid x = s.tid x := by
      intro x
      rw [tid, tid, hobj', hobj]
    have htid₁ : ∀ x, s₁.tid x = s.tid x := by
      intro x
      rw [tid, tid, hobj]
    have hpermYs : ys.Perm (bs ++ [b]) :=
      hplaced.perm.trans ((hperm.cons b).trans (List.perm_append_singleton b bs).symm)
    refine ⟨s', ys, insertAll_append hrun hinsert, hobj'.trans hobj, hlists',
      fun c => hpermYs.count_eq c, ?_⟩
    constructor
    · intro hsorted
      have hsorted₁ : s₁.Sorted ys := hsorted.imp fun {x y} hxy => by
        rwa [htid x, htid y, ← htid₁ x, ← htid₁ y] at hxy
      have hall := hiff.mp (hsorted₁.sublist hplaced.sublist)
      have hsame := hplaced.same_tid hsorted₁ fun c hc d hd => by
        rw [htid₁, htid₁]
        exact hall c (hperm.mem_iff.mp hc) d (hperm.mem_iff.mp hd)
      have hto : ∀ e ∈ bs ++ [b], s.tid e = s.tid b := by
        intro e he
        rcases List.mem_append.mp he with he | he
        · rw [← htid₁, ← htid₁]
          exact hsame e (hperm.mem_iff.mpr he)
        · rw [List.mem_singleton.mp he]
      intro c hc d hd
      rw [hto c hc, hto d hd]
    · intro hall
      refine List.pairwise_of_forall_mem_list fun x hx y hy => ?_
      rw [htid, htid, hall x (hpermYs.mem_iff.mp hx) y (hpermYs.mem_iff.mp hy)]

/-! ## Two mailboxes -/

/-- The mailbox at `0x8d000 + 8 * n`. -/
def exampleBox (n : Fin 100) : ObjPtr :=
  ⟨0x8d000 + 8 * n, isValid_iff.mpr (by omega)⟩

/-- An empty list; the tid of the n-th mailbox is `n`. -/
def exampleRegistry : Registry where
  links := ⟨id, id⟩
  obj b x := if x = mailboxTid then UInt8.ofNat (b.val / 8) else 0

theorem exampleRegistry_empty : exampleRegistry.Lists [] := ⟨by simp, rfl, rfl⟩

theorem mailboxes_sorted_iff_two :
    ∃ s' xs, insertAll walkRounds exampleRegistry [exampleBox 1, exampleBox 2] = .ok s' ∧
      s'.obj = exampleRegistry.obj ∧ s'.Lists xs ∧
      (∀ b, xs.count b = [exampleBox 1, exampleBox 2].count b) ∧
      (s'.Sorted xs ↔ ∀ b ∈ [exampleBox 1, exampleBox 2], ∀ c ∈ [exampleBox 1, exampleBox 2],
        exampleRegistry.tid b = exampleRegistry.tid c) :=
  mailboxes_sorted_iff exampleRegistry _ exampleRegistry_empty (by decide)

/-- The mailbox with tid 2 is put before the one with tid 1. -/
theorem larger_tid_first :
    exampleRegistry.tid (exampleBox 1) = 1 ∧ exampleRegistry.tid (exampleBox 2) = 2 ∧
      ∃ s', insertAll walkRounds exampleRegistry [exampleBox 1, exampleBox 2] = .ok s' ∧
        s'.Lists [exampleBox 2, exampleBox 1] ∧ ¬ s'.Sorted [exampleBox 2, exampleBox 1] :=
  ⟨by decide, by decide, _, rfl, ⟨by decide, ⟨rfl, rfl⟩, ⟨rfl, rfl⟩, ⟨rfl, rfl⟩⟩, by
    show ¬ List.Pairwise _ _
    decide⟩

end Registry

end HeavenFox.Kernel
