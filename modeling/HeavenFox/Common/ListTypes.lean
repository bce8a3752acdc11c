/-
# HeavenFox.Common.ListTypes -- the doubly linked lists of `list_types.h`

`struct list_head` is a pair of link fields inside every object that can be
queued, and a list is the ring through its head.  The functions below write the
fields in the order the C code does; each is then identified with an edit of
`Logic.Ring`, and the traversals (`foreach_list_next_entry`,
`foreach_list_prev_entry` and the two-ended scan of `list_head_for_each`) get one
specification lemma each, over every ring and every member.

A traversal is a loop that stops only when it meets its own head, so it carries
the number of rounds it may take; `Stop.spins` means that the head was not met.
-/
import HeavenFox.Common.ErrorTypes
import HeavenFox.Logic.Ring

namespace HeavenFox.Common

open HeavenFox.Logic

variable {α : Type} [DecidableEq α]

/-! ## Link edits -/

/-- `init_list_head`. -/
def initListHead (l : Links α) (sprtList : α) : Links α :=
  (l.setNext sprtList sprtList).setPrev sprtList sprtList

/-- `list_head_add_head`: insert a new member behind the list head. -/
def listHeadAddHead (l : Links α) (sprtHead sprtList : α) : Links α :=
  let ptrNext := l.next sprtHead
  let l := l.setPrev sprtList sprtHead
  let l := l.setNext sprtHead sprtList
  let l := l.setNext sprtList ptrNext
  l.setPrev ptrNext sprtList

/-- `list_head_add_tail`: insert a new member before the list head. -/
def listHeadAddTail (l : Links α) (sprtHead sprtList : α) : Links α :=
  let ptrPrev := l.prev sprtHead
  let l := l.setPrev sprtList ptrPrev
  let l := l.setNext ptrPrev sprtList
  let l := l.setNext sprtList sprtHead
  l.setPrev sprtHead sprtList

/-- `list_head_del_tail`: delete the member before the list head. -/
def listHeadDelTail (l : Links α) (sprtHead : α) : Links α :=
  let ptrPrev := l.prev (l.prev sprtHead)
  let l := l.setPrev sprtHead ptrPrev
  l.setNext ptrPrev sprtHead

/-- `list_head_del`: join the neighbours of a member. -/
def listHeadDel (l : Links α) (sprtList : α) : Links α :=
  let ptrPrev := l.prev sprtList
  let ptrNext := l.next sprtList
  let l := l.setNext ptrPrev ptrNext
  l.setPrev ptrNext ptrPrev

/-- `mrt_list_head_empty`: both link fields of the head point at the head. -/
def mrtListHeadEmpty (l : Links α) (head : α) : Bool :=
  decide (l.prev head = head) && decide (l.next head = head)

theorem initListHead_eq (l : Links α) (x : α) : initListHead l x = l.selfLink x := rfl

theorem listHeadAddHead_eq (l : Links α) (h x : α) : listHeadAddHead l h x = l.insertAfter h x := rfl

/-- Deleting before a node is unlinking its predecessor. -/
theorem listHeadDelTail_eq {l : Links α} {x : α} (h : l.next (l.prev x) = x) :
    listHeadDelTail l x = l.unlink (l.prev x) := by
  simp only [Links.unlink, h]
  rfl

theorem listHeadDel_eq (l : Links α) (x : α) : listHeadDel l x = l.unlink x := rfl

/-! ## Traversals -/

/-- `foreach_list_next_entry` / `foreach_list_prev_entry`: from `pos`, until the head is met or the
body leaves the loop with a result. -/
def foreachEntry {β : Type} (advance : α → α) (head : α) (body : α → Except Stop (Option β)) :
    Nat → α → Except Stop (Option β)
  | 0, _ => .error .spins
  | n + 1, pos =>
    if pos = head then .ok none
    else
      match body pos with
      | .error e => .error e
      | .ok (some b) => .ok (some b)
      | .ok none => foreachEntry advance head body n (advance pos)

/-- `foreach_list_next_entry` with a body that may change the links: where to go on is read from the
entry after its body has run. -/
def foreachEntryRun {σ : Type} (next : σ → α → α) (head : α) (body : α → σ → Except Stop σ) :
    Nat → α → σ → Except Stop σ
  | 0, _, _ => .error .spins
  | n + 1, pos, s =>
    if pos = head then .ok s
    else
      match body pos s with
      | .error e => .error e
      | .ok s => foreachEntryRun next head body n (next s pos) s

/-- `foreach_list_next_entry_safe`: the entry to go on to is read before the body runs. -/
def foreachEntrySafe {σ : Type} (next : σ → α → α) (head : α) (body : α → σ → Except Stop σ) :
    Nat → α → α → σ → Except Stop σ
  | 0, _, _, _ => .error .spins
  | n + 1, pos, temp, s =>
    if pos = head then .ok s
    else
      match body pos s with
      | .error e => .error e
      | .ok s => foreachEntrySafe next head body n temp (next s temp) s

/-- The nodes on a list, in order: what a traversal from `pos` visits. -/
def listMembers (l : Links α) (head : α) : Nat → α → List α
  | 0, _ => []
  | n + 1, pos => if pos = head then [] else pos :: listMembers l head n (l.next pos)

/-- The loop of `list_head_for_each`, with the two cursors of `foreach_list_head`. -/
def forEachLoop (l : Links α) (sprtHead sprtList : α) : Nat → α → α → Except Stop Int
  | 0, _, _ => .error .spins
  | n + 1, ptrRight, ptrLeft =>
    if ptrRight ≠ sprtHead ∧ ptrLeft ≠ sprtHead then
      if ptrLeft = sprtList ∨ ptrRight = sprtList then .ok erNormal
      else if ptrLeft = ptrRight then .ok (-erError)
      else forEachLoop l sprtHead sprtList n (l.next ptrRight) (l.prev ptrLeft)
    else .ok (-erError)

/-- `list_head_for_each`: is the node a member of the list? -/
def listHeadForEach (rounds : Nat) (l : Links α) (sprtHead sprtList : α) : Except Stop Int :=
  forEachLoop l sprtHead sprtList rounds (l.next sprtHead) (l.prev sprtHead)

/-- `list_head_del_safe`: delete a node if it is a member of the list. -/
def listHeadDelSafe (rounds : Nat) (l : Links α) (sprtHead sprtList : α) :
    Except Stop (Links α) := do
  let ptrPrev := l.prev sprtList
  let ptrNext := l.next sprtList
  let retval ← listHeadForEach rounds l sprtHead sprtList
  if retval = 0 then
    let l := l.setNext ptrPrev ptrNext
    pure (l.setPrev ptrNext ptrPrev)
  else
    pure l

/-! ## What the traversals find -/

variable {l : Links α} {h x : α} {xs : List α}

/-- Inserting before the head of a ring is inserting after its last member. -/
theorem listHeadAddTail_eq (r : Ring l h xs) :
    listHeadAddTail l h x = l.insertAfter (Ring.before h xs) x := by
  have hnext : l.next (Ring.before h xs) = h := by
    have hr : Ring l h (xs ++ []) := by simpa using r
    exact hr.path_from.1
  simp only [listHeadAddTail, Links.insertAfter, r.prev_head, hnext]

/-- A head is empty exactly when its ring has no member. -/
theorem mrtListHeadEmpty_iff (r : Ring l h xs) : mrtListHeadEmpty l h = true ↔ xs = [] := by
  simp only [mrtListHeadEmpty, Bool.and_eq_true, decide_eq_true_eq]
  constructor
  · intro he
    exact r.unique (Ring.nil_iff.mpr he.symm)
  · rintro rfl
    exact (Ring.nil_iff.mp r).symm

section Traversal

-- the objects `es` are on the list through the node `entry` that each of them embeds
variable {ι β : Type} {entry : ι → α} {es : List ι} {f : ι → Option β}
  {body : α → Except Stop (Option β)} {n : Nat}

/-- A forward traversal of the rest of a list returns what its body finds first. -/
theorem foreachEntry_path (hp : l.Path x (es.map entry) h) (hh : h ∉ es.map entry)
    (hbody : ∀ e ∈ es, body (entry e) = .ok (f e)) (hn : es.length < n) :
    foreachEntry l.next h body n (l.next x) = .ok (es.findSome? f) := by
  induction es generalizing x n with
  | nil =>
    obtain ⟨m, rfl⟩ : ∃ m, n = m + 1 := ⟨n - 1, by simp at hn; omega⟩
    have hnext : l.next x = h := hp.1
    rw [hnext]
    simp [foreachEntry]
  | cons e es ih =>
    obtain ⟨m, rfl⟩ : ∃ m, n = m + 1 := ⟨n - 1, by simp at hn; omega⟩
    simp only [List.map_cons, List.mem_cons, not_or] at hh
    have hnext : l.next x = entry e := hp.1.1
    rw [hnext, foreachEntry, if_neg (Ne.symm hh.1), hbody e (by simp)]
    cases hf : f e with
    | some b => simp [hf]
    | none =>
      simp only [List.findSome?_cons, hf]
      exact ih hp.2 hh.2 (fun z hz => hbody z (List.mem_cons_of_mem e hz)) (by simp at hn; omega)

/-- **`foreach_list_next_entry`** visits the members in order. -/
theorem foreachEntry_next (r : Ring l h (es.map entry))
    (hbody : ∀ e ∈ es, body (entry e) = .ok (f e)) (hn : es.length < n) :
    foreachEntry l.next h body n (l.next h) = .ok (es.findSome? f) :=
  foreachEntry_path r.path r.not_mem hbody hn

/-- **`foreach_list_prev_entry`** visits the members from the last to the first. -/
theorem foreachEntry_prev (r : Ring l h (es.map entry))
    (hbody : ∀ e ∈ es, body (entry e) = .ok (f e)) (hn : es.length < n) :
    foreachEntry l.prev h body n (l.prev h) = .ok (es.reverse.findSome? f) := by
  have hflip : Ring l.flip h (es.reverse.map entry) := by
    rw [List.map_reverse]
    exact r.flip
  exact foreachEntry_path (l := l.flip) hflip.path hflip.not_mem
    (fun e he => hbody e (List.mem_reverse.mp he)) (by simpa using hn)

/-- **`foreach_list_next_entry_safe`** with a body that leaves the links alone visits the members in
order. -/
theorem foreachEntrySafe_path {σ : Type} {act : ι → σ → σ} {body : α → σ → Except Stop σ}
    (hp : l.Path x (es.map entry) h) (hh : h ∉ es.map entry)
    (hbody : ∀ e ∈ es, ∀ s, body (entry e) s = .ok (act e s)) (hn : es.length < n) (s : σ) :
    foreachEntrySafe (fun _ => l.next) h body n (l.next x) (l.next (l.next x)) s =
      .ok (es.foldl (fun s e => act e s) s) := by
  induction es generalizing x n s with
  | nil =>
    obtain ⟨m, rfl⟩ : ∃ m, n = m + 1 := ⟨n - 1, by simp at hn; omega⟩
    have hnext : l.next x = h := hp.1
    simp [foreachEntrySafe, hnext]
  | cons e es ih =>
    obtain ⟨m, rfl⟩ : ∃ m, n = m + 1 := ⟨n - 1, by simp at hn; omega⟩
    simp only [List.map_cons, List.mem_cons, not_or] at hh
    have hnext : l.next x = entry e := hp.1.1
    rw [hnext, foreachEntrySafe, if_neg (Ne.symm hh.1), hbody e (by simp)]
    exact ih hp.2 hh.2 (fun z hz => hbody z (List.mem_cons_of_mem e hz)) (by simp at hn; omega) _

/-- **`foreach_list_next_entry_safe`** with a body that may take its entry off the list: `P` tells
what holds when the objects `es` are left to visit. -/
theorem foreachEntrySafe_rule (entry : ι → α) {σ : Type} {next : σ → α → α} {body : α → σ → Except Stop σ}
    {P : List ι → σ → Prop}
    (hnext : ∀ e es s, P (e :: es) s →
      entry e ≠ h ∧ next s (entry e) = (es.map entry).headD h)
    (hbody : ∀ e es s, P (e :: es) s → ∃ s', body (entry e) s = .ok s' ∧ P es s')
    (hn : es.length < n) {s : σ} (hs : P es s) :
    ∃ s', foreachEntrySafe next h body n ((es.map entry).headD h)
      (next s ((es.map entry).headD h)) s = .ok s' ∧ P [] s' := by
  induction es generalizing n s with
  | nil =>
    obtain ⟨m, rfl⟩ : ∃ m, n = m + 1 := ⟨n - 1, by simp at hn; omega⟩
    exact ⟨s, by simp [foreachEntrySafe], hs⟩
  | cons e es ih =>
    obtain ⟨m, rfl⟩ : ∃ m, n = m + 1 := ⟨n - 1, by simp at hn; omega⟩
    obtain ⟨hne, htemp⟩ := hnext e es s hs
    obtain ⟨s', hcall, hs'⟩ := hbody e es s hs
    -- the entry to go on to has been read before the body ran, and is the next one still
    rw [List.map_cons, List.headD_cons, htemp, foreachEntrySafe, if_neg hne, hcall]
    exact ih (by simp at hn; omega) hs'

end Traversal

theorem listMembers_path {n : Nat} (hp : l.Path x xs h) (hh : h ∉ xs) (hn : xs.length < n) :
    listMembers l h n (l.next x) = xs := by
  induction xs generalizing x n with
  | nil =>
    obtain ⟨m, rfl⟩ : ∃ m, n = m + 1 := ⟨n - 1, by simp at hn; omega⟩
    rw [show l.next x = h from hp.1, listMembers, if_pos rfl]
  | cons y ys ih =>
    obtain ⟨m, rfl⟩ : ∃ m, n = m + 1 := ⟨n - 1, by simp at hn; omega⟩
    simp only [List.mem_cons, not_or] at hh
    rw [show l.next x = y from hp.1.1, listMembers, if_neg (Ne.symm hh.1)]
    rw [ih hp.2 hh.2 (by simp at hn; omega)]

/-- The nodes on a list are the members of its ring. -/
theorem listMembers_ring {n : Nat} (r : Ring l h xs) (hn : xs.length < n) :
    listMembers l h n (l.next h) = xs :=
  listMembers_path r.path r.not_mem hn

/-- A traversal that only meets places other than its head, finds nothing there and goes on to such
places never ends. -/
theorem foreachEntry_spins {β : Type} {advance : α → α} {body : α → Except Stop (Option β)}
    (P : α → Prop) (hP : ∀ y, P y → y ≠ h ∧ body y = .ok none ∧ P (advance y)) (n : Nat)
    (hx : P x) : foreachEntry advance h body n x = .error .spins := by
  induction n generalizing x with
  | zero => rfl
  | succ n ih =>
    obtain ⟨hne, hbody, hnext⟩ := hP x hx
    rw [foreachEntry, if_neg hne, hbody]
    exact ih hnext

omit [DecidableEq α] in
/-- A list without duplicates is split in one way around a member. -/
theorem split_unique {done rest front back : List α} {b : α} (hnd : xs.Nodup)
    (hl : xs = done ++ b :: rest) (hr : xs = front ++ b :: back) : done = front ∧ rest = back := by
  have hsplit : done ++ b :: rest = front ++ b :: back := hl.symm.trans hr
  rw [hl] at hnd
  obtain ⟨-, hcons, hapart⟩ := List.nodup_append.mp hnd
  have hdone : b ∉ done := fun hmem => hapart b hmem b List.mem_cons_self rfl
  have hrest : b ∉ rest := (List.nodup_cons.mp hcons).1
  obtain ⟨hleft, -, hright⟩ := (List.append_cons_inj_of_notMem hdone hrest).mp hsplit
  exact ⟨hleft, hright⟩

/-- The two cursors of `list_head_for_each` have passed `done` from the left and `back` from the
right without meeting the node. -/
theorem forEachLoop_ring {done rest front back : List α} {n : Nat} (r : Ring l h xs)
    (hl : xs = done ++ rest) (hr : xs = front ++ back) (hlen : done.length = back.length)
    (hdone : x ∉ done) (hback : x ∉ back) (hn : rest.length < n) :
    forEachLoop l h x n (l.next (Ring.before h done)) (Ring.before h front) =
      .ok (if x ∈ xs then erNormal else -erError) := by
  induction rest generalizing done front back n with
  | nil =>
    obtain ⟨m, rfl⟩ : ∃ m, n = m + 1 := ⟨n - 1, by simp at hn; omega⟩
    have hnext : l.next (Ring.before h done) = h := by
      have hp := r
      rw [hl] at hp
      exact hp.path_from.1
    have hx : x ∉ xs := by simpa [hl] using hdone
    simp [forEachLoop, hnext, hx]
  | cons b rest ih =>
    obtain ⟨m, rfl⟩ : ∃ m, n = m + 1 := ⟨n - 1, by simp at hn; omega⟩
    have hcount : front.length = (b :: rest).length := by
      have h1 := congrArg List.length hl
      have h2 := congrArg List.length hr
      simp only [List.length_append] at h1 h2
      omega
    -- as many members are left on either side, so there is one under the left cursor as well
    obtain ⟨front, c, rfl⟩ : ∃ f c, front = f ++ [c] := by
      cases front using List.reverseRecOn with
      | nil => simp at hcount
      | append_singleton f c => exact ⟨f, c, rfl⟩
    have hright : l.next (Ring.before h done) = b := by
      have hp := r
      rw [hl] at hp
      exact hp.next_before
    have hr' : xs = front ++ c :: back := by simpa using hr
    have hbmem : b ∈ xs := by simp [hl]
    have hcmem : c ∈ xs := by simp [hr']
    have hbh : b ≠ h := by
      rintro rfl
      exact r.not_mem hbmem
    have hch : c ≠ h := by
      rintro rfl
      exact r.not_mem hcmem
    rw [hright, Ring.before_concat, forEachLoop, if_pos ⟨hbh, hch⟩]
    by_cases hfound : c = x ∨ b = x
    · have hx : x ∈ xs := by
        rcases hfound with rfl | rfl
        · exact hcmem
        · exact hbmem
      rw [if_pos hfound, if_pos hx]
    · rw [if_neg hfound]
      simp only [not_or] at hfound
      by_cases hmeet : c = b
      · -- the cursors meet on the middle member: every member has been looked at
        subst c
        obtain ⟨-, rfl⟩ := split_unique r.members_nodup hl hr'
        have hx : x ∉ xs := by
          rw [hl, List.mem_append, List.mem_cons, not_or, not_or]
          exact ⟨hdone, fun e => hfound.2 e.symm, hback⟩
        rw [if_pos rfl, if_neg hx]
      · have hleft : l.prev c = Ring.before h front := by
          have hp := r
          rw [hr'] at hp
          exact hp.prev_member
        rw [if_neg hmeet, hleft]
        have hb : b = Ring.before h (done ++ [b]) := by simp
        rw [hb]
        refine ih (show xs = (done ++ [b]) ++ rest by simpa using hl)
          (show xs = front ++ (c :: back) from hr') ?_ ?_ ?_ ?_
        · simp [hlen]
        · simpa [not_or] using ⟨hdone, fun e => hfound.2 e.symm⟩
        · simpa [not_or] using ⟨fun e => hfound.1 e.symm, hback⟩
        · simp at hn
          omega

/-- **`list_head_for_each`** succeeds exactly on the members of the ring. -/
theorem listHeadForEach_ring {n : Nat} (r : Ring l h xs) (hn : xs.length < n) :
    listHeadForEach n l h x = .ok (if x ∈ xs then erNormal else -erError) := by
  unfold listHeadForEach
  rw [r.prev_head]
  exact forEachLoop_ring r (show xs = [] ++ xs from rfl) (show xs = xs ++ [] by simp) rfl (by simp)
    (by simp) hn

/-- **`list_head_del_safe`** unlinks a member and leaves everything as it was otherwise. -/
theorem listHeadDelSafe_ring {n : Nat} (r : Ring l h xs) (hn : xs.length < n) :
    listHeadDelSafe n l h x = .ok (if x ∈ xs then l.unlink x else l) := by
  unfold listHeadDelSafe
  rw [listHeadForEach_ring r hn]
  by_cases hx : x ∈ xs
  · simp only [if_pos hx]
    rfl
  · simp only [if_neg hx]
    rfl

/-- What unlinking a member leaves: the ring of the others in their order, and every link field as it
was but one in each neighbour. -/
structure Unlinked (l l' : Links α) (h x : α) (xs : List α) : Prop where
  ring : Ring l' h (xs.erase x)
  next : ∀ y, l'.next y = if y = l.prev x then l.next x else l.next y
  prev : ∀ y, l'.prev y = if y = l.next x then l.prev x else l.prev y

theorem unlinked_of_mem (r : Ring l h xs) (hx : x ∈ xs) : Unlinked l (l.unlink x) h x xs := by
  refine ⟨?_, fun y => l.unlink_next y, fun y => l.unlink_prev y⟩
  obtain ⟨pre, post, rfl⟩ := List.append_of_mem hx
  have hpre : x ∉ pre := r.not_mem_pre (by simp)
  have herase : (pre ++ x :: post).erase x = pre ++ post := by
    rw [List.erase_append_right _ hpre, List.erase_cons_head]
  rw [herase]
  exact r.unlink

/-- **Scan and deletion.**  On a ring of any length, and for any node, with rounds enough for the
members, `list_head_for_each` returns success on the members and an error on every other node, the
head included; and `list_head_del_safe` unlinks a member, and for any other node changes nothing. -/
theorem listHead_membership (r : Ring l h xs) (x : α) {n : Nat} (hn : xs.length < n) :
    (listHeadForEach n l h x = .ok erNormal ↔ x ∈ xs) ∧
      (listHeadForEach n l h x = .ok (-erError) ↔ x ∉ xs) ∧
      ∃ l', listHeadDelSafe n l h x = .ok l' ∧
        (x ∈ xs → Unlinked l l' h x xs) ∧ (x ∉ xs → l' = l) := by
  have hne : (Except.ok (-erError) : Except Stop Int) ≠ .ok erNormal := by decide
  rw [listHeadForEach_ring r hn, listHeadDelSafe_ring r hn]
  by_cases hx : x ∈ xs
  · rw [if_pos hx, if_pos hx]
    exact ⟨iff_of_true rfl hx, iff_of_false hne.symm (not_not_intro hx), _, rfl,
      fun _ => unlinked_of_mem r hx, fun hnot => absurd hx hnot⟩
  · rw [if_neg hx, if_neg hx]
    exact ⟨iff_of_false hne hx, iff_of_true rfl hx, l, rfl, fun hmem => absurd hmem hx, fun _ => rfl⟩

/-- A ring of four members around 0, the nodes being numbers. -/
def fourRing : Links Nat :=
  ⟨fun a => if a = 0 then 4 else a - 1, fun a => if a = 4 then 0 else a + 1⟩

theorem fourRing_ring : Ring fourRing 0 [1, 2, 3, 4] where
  nodup := by decide
  path := by simp [Links.Path, Links.Linked, fourRing]

/-- The third of four members is taken off. -/
theorem listHead_membership_four :
    (listHeadForEach 5 fourRing 0 3 = .ok erNormal ↔ 3 ∈ [1, 2, 3, 4]) ∧
      (listHeadForEach 5 fourRing 0 3 = .ok (-erError) ↔ 3 ∉ [1, 2, 3, 4]) ∧
      ∃ l', listHeadDelSafe 5 fourRing 0 3 = .ok l' ∧
        (3 ∈ [1, 2, 3, 4] → Unlinked fourRing l' 0 3 [1, 2, 3, 4]) ∧
        (3 ∉ [1, 2, 3, 4] → l' = fourRing) :=
  listHead_membership fourRing_ring 3 (by decide)

end HeavenFox.Common
