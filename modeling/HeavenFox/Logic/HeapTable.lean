/-
# HeavenFox.Logic.HeapTable -- arrays that an allocator hands out

Blocks are numbered in the order in which they are handed out, and a log keeps those that were
released.  What is built by one allocation after another owns a run of numbers; if all of them are
released then each is released once.

An array is filled through a cursor, with one entry for each item of a list, until the body stops;
and it is read by index.  The rules turn both into lists.
-/
import Mathlib.Data.List.Forall2
import Mathlib.Data.List.Nodup
import Mathlib.Data.List.Range

namespace HeavenFox.Logic

/-! ## Blocks -/

/-- How many blocks were handed out, and which were released, in order. -/
structure BlockLog where
  count : Nat
  freed : List Nat
  deriving DecidableEq

namespace BlockLog

/-- Nothing was handed out. -/
def start : BlockLog := ⟨0, []⟩

/-- One more block is handed out. -/
def handOut (log : BlockLog) : BlockLog := { log with count := log.count + 1 }

/-- Blocks are released. -/
def release (log : BlockLog) (blocks : List Nat) : BlockLog :=
  { log with freed := log.freed ++ blocks }

theorem release_nil (log : BlockLog) : log.release [] = log := by
  rw [release, List.append_nil]

theorem release_append (log : BlockLog) (l l' : List Nat) :
    log.release (l ++ l') = (log.release l).release l' := by
  simp only [release, List.append_assoc]

/-- Every block that was handed out was released once, and no other. -/
def FreedOnce (log : BlockLog) : Prop :=
  ∀ block, log.freed.count block = if block < log.count then 1 else 0

end BlockLog

/-- The blocks are those from number `i` up to `j`, in any order. -/
def Owns (blocks : List Nat) (i j : Nat) : Prop := i ≤ j ∧ blocks.Perm (List.range' i (j - i))

section Blocks

variable {l l' : List Nat} {i j k : Nat}

theorem owns_nil (i : Nat) : Owns [] i i := by
  refine ⟨Nat.le_refl i, ?_⟩
  rw [Nat.sub_self]
  exact List.Perm.nil

theorem owns_one (i : Nat) : Owns [i] i (i + 1) := by
  refine ⟨Nat.le_succ i, ?_⟩
  rw [Nat.add_sub_cancel_left]
  exact List.Perm.refl _

theorem Owns.append (h : Owns l i j) (h' : Owns l' j k) : Owns (l ++ l') i k := by
  refine ⟨Nat.le_trans h.1 h'.1, ?_⟩
  have hsplit : List.range' i (k - i) = List.range' i (j - i) ++ List.range' j (k - j) := by
    have hle := h.1
    have hle' := h'.1
    have hstart : j = i + 1 * (j - i) := by omega
    have hlen : k - i = (j - i) + (k - j) := by omega
    rw [hlen, ← List.range'_append, ← hstart]
  rw [hsplit]
  exact h.2.append h'.2

theorem Owns.perm (h : Owns l i j) (hperm : l'.Perm l) : Owns l' i j := ⟨h.1, hperm.trans h.2⟩

/-- **Released once.**  What owns all blocks is released. -/
theorem Owns.freedOnce (h : Owns l 0 k) : BlockLog.FreedOnce (BlockLog.release ⟨k, []⟩ l) := by
  intro block
  show ([] ++ l).count block = if block < k then 1 else 0
  rw [List.nil_append, h.2.count_eq, Nat.sub_zero, ← List.range_eq_range']
  by_cases hlt : block < k
  · rw [if_pos hlt]
    exact List.count_eq_one_of_mem List.nodup_range (List.mem_range.mpr hlt)
  · rw [if_neg hlt]
    exact List.count_eq_zero_of_not_mem fun hmem => hlt (List.mem_range.mp hmem)

end Blocks

/-! ## Arrays -/

variable {ν α β σ ε : Type} (outside : ε)

/-- An array and its block. -/
structure HeapTable (α : Type) where
  block : Nat
  entries : List α

/-- An entry is read. -/
def getAt (table : List α) (i : Nat) : Except ε α := (table[i]?).elim (.error outside) .ok

/-- An entry is written. -/
def putAt (table : List α) (i : Nat) (a : α) : Except ε (List α) :=
  if i < table.length then .ok (table.set i a) else .error outside

theorem getAt_append (done : List α) (a : α) (rest : List α) :
    getAt outside (done ++ a :: rest) done.length = .ok a := by
  rw [getAt, List.getElem?_append_right (Nat.le_refl _), Nat.sub_self]
  rfl

theorem putAt_append (done : List α) (a b : α) (rest : List α) :
    putAt outside (done ++ a :: rest) done.length b = .ok (done ++ b :: rest) := by
  have hlt : done.length < (done ++ a :: rest).length := by simp
  rw [putAt, if_pos hlt, List.set_append_right _ _ (Nat.le_refl _), Nat.sub_self]
  rfl

theorem getAt_end (table : List α) : getAt outside table table.length = .error outside := by
  rw [getAt, List.getElem?_eq_none (Nat.le_refl _)]
  rfl

/-- The entries from `i` on, one after another. -/
def eachEntry (body : α → σ → Except ε σ) (table : List α) : Nat → Nat → σ → Except ε σ
  | 0, _, s => .ok s
  | rounds + 1, i, s => do
    let a ← getAt outside table i
    let s ← body a s
    eachEntry body table rounds (i + 1) s

/-- The first thing that is found in the entries from `i` on. -/
def findEntry (test : α → Except ε (Option β)) (table : List α) : Nat → Nat → Except ε (Option β)
  | 0, _ => .ok none
  | rounds + 1, i => do
    let a ← getAt outside table i
    match ← test a with
    | some b => pure (some b)
    | none => findEntry test table rounds (i + 1)

/-- The entries from `i` on are filled, one for each item, until the body stops. -/
def fillFrom (body : ν → α → σ → Except ε (Bool × α × σ)) :
    List ν → Nat → List α → σ → Except ε (Bool × List α × σ)
  | [], _, table, s => .ok (true, table, s)
  | n :: rest, i, table, s => do
    let a ← getAt outside table i
    let (on, a, s) ← body n a s
    let table ← putAt outside table i a
    if on then fillFrom body rest (i + 1) table s else pure (false, table, s)

variable {outside}

/-- **Releasing what all entries own**, if the body does it for each of them. -/
theorem eachEntry_release {body : α → BlockLog → Except ε BlockLog} {blocks : α → List Nat}
    (done rest : List α) (hbody : ∀ a ∈ rest, ∀ log, body a log = .ok (log.release (blocks a)))
    (log : BlockLog) :
    eachEntry outside body (done ++ rest) rest.length done.length log =
      .ok (log.release (rest.flatMap blocks)) := by
  induction rest generalizing done log with
  | nil => rw [List.flatMap_nil, log.release_nil]; rfl
  | cons a rest ih =>
    have hstep := ih (done ++ [a]) (fun a' ha' => hbody a' (List.mem_cons_of_mem _ ha'))
      (log.release (blocks a))
    rw [List.append_assoc, List.singleton_append, List.length_append, List.length_singleton]
      at hstep
    rw [List.length_cons, eachEntry, getAt_append, List.flatMap_cons, log.release_append]
    simp only [bind, Except.bind, hbody a List.mem_cons_self]
    exact hstep

/-- **A search** returns if its tests do, with what one of them has found. -/
theorem findEntry_returns {test : α → Except ε (Option β)} {P : β → Prop} (done rest : List α)
    (htest : ∀ a ∈ rest, ∃ found, test a = .ok found ∧ ∀ b ∈ found, P b) :
    ∃ found, findEntry outside test (done ++ rest) rest.length done.length = .ok found ∧
      ∀ b ∈ found, P b := by
  induction rest generalizing done with
  | nil => exact ⟨none, rfl, fun b hb => by cases hb⟩
  | cons a rest ih =>
    obtain ⟨found, hfound, hP⟩ := htest a List.mem_cons_self
    rw [List.length_cons, findEntry, getAt_append]
    simp only [bind, Except.bind, hfound]
    cases found with
    | some b => exact ⟨some b, rfl, hP⟩
    | none =>
      have hrest := ih (done ++ [a]) fun a' ha' => htest a' (List.mem_cons_of_mem _ ha')
      rwa [List.append_assoc, List.singleton_append, List.length_append, List.length_singleton]
        at hrest

/-! ## Filling -/

/-- What comes of a verdict: a run out of bounds, or one that goes on or stops and leaves a log. -/
abbrev Verdict := Option (Bool × BlockLog)

/-- The run does what the verdict says. -/
def Follows (outside : ε) (log : σ → BlockLog) (verdict : Verdict) (run : Except ε (Bool × α × σ))
    (post : Bool → BlockLog → α → Prop) : Prop :=
  match verdict with
  | none => run = .error outside
  | some (on, k) => ∃ a s, run = .ok (on, a, s) ∧ log s = k ∧ post on k a

theorem Follows.mono {log : σ → BlockLog} {verdict : Verdict} {run : Except ε (Bool × α × σ)}
    {post post' : Bool → BlockLog → α → Prop} (h : Follows outside log verdict run post)
    (himp : ∀ on k a, post on k a → post' on k a) : Follows outside log verdict run post' := by
  match verdict, h with
  | none, h => exact h
  | some (on, k), ⟨a, s, hrun, hlog, hpost⟩ => exact ⟨a, s, hrun, hlog, himp on k a hpost⟩

/-- What was run for is put into something. -/
theorem Follows.map {log : σ → BlockLog} {verdict : Verdict} {run : Except ε (Bool × α × σ)}
    {post : Bool → BlockLog → α → Prop} {post' : Bool → BlockLog → β → Prop} {f : α → β}
    (h : Follows outside log verdict run post)
    (himp : ∀ on k a, post on k a → post' on k (f a)) :
    Follows outside log verdict (run >>= fun r => pure (r.1, f r.2.1, r.2.2)) post' := by
  match verdict, h with
  | none, h =>
    have hrun : run = .error outside := h
    rw [hrun]
    rfl
  | some (on, k), ⟨a, s, hrun, hlog, hpost⟩ =>
    rw [hrun]
    exact ⟨f a, s, rfl, hlog, himp on k a hpost⟩

/-- The verdict on the items one after another. -/
def verdictAll (verdict : ν → BlockLog → Verdict) : List ν → BlockLog → Verdict
  | [], log => some (true, log)
  | n :: rest, log =>
    match verdict n log with
    | some (true, log) => verdictAll verdict rest log
    | stopped => stopped

/-- What two lists that are related say of the second. -/
theorem forall_mem_of_forall₂ {R : ν → α → Prop} {P : α → Prop} {l : List ν} {l' : List α}
    (h : List.Forall₂ R l l') (hP : ∀ n a, R n a → P a) : ∀ a ∈ l', P a := by
  have hall : List.Forall₂ (fun a n => P a ∧ R n a) l' l :=
    (h.imp fun n a hR => (⟨hP n a hR, hR⟩ : P a ∧ R n a)).flip
  exact ((List.forall₂_and_left l' l).mp hall).1

section Fill

variable {body : ν → α → σ → Except ε (Bool × α × σ)} {log : σ → BlockLog}
  {verdict : ν → BlockLog → Verdict} {blocks : α → List Nat} {Inv : α → Prop} {Good : ν → α → Prop}
  {blank : α}

theorem owns_blanks (hblank : blocks blank = []) (n i : Nat) :
    Owns ((List.replicate n blank).flatMap blocks) i i := by
  have hnil : (List.replicate n blank).flatMap blocks = [] :=
    List.flatMap_eq_nil_iff.mpr fun a ha => by rw [List.eq_of_mem_replicate ha, hblank]
  rw [hnil]
  exact owns_nil i

/-- **Filling an array.**  If the body follows its verdict on a blank entry, then filling follows
the verdict on all items; what is filled owns the blocks handed out meanwhile, and all of it is good
if the body does not stop. -/
theorem fillFrom_follows (hblank : blocks blank = []) (hinv : Inv blank) (nodes : List ν)
    (hbody : ∀ n ∈ nodes, ∀ s, Follows outside log (verdict n (log s)) (body n blank s)
      fun on k a => Inv a ∧ Owns (blocks a) (log s).count k.count ∧ (on = true → Good n a))
    (done : List α) (s : σ) :
    Follows outside log (verdictAll verdict nodes (log s))
      (fillFrom outside body nodes done.length (done ++ List.replicate nodes.length blank) s)
      fun on k table => ∃ rest, table = done ++ rest ∧ rest.length = nodes.length ∧
        (∀ a ∈ rest, Inv a) ∧ Owns (rest.flatMap blocks) (log s).count k.count ∧
        (on = true → List.Forall₂ Good nodes rest) := by
  induction nodes generalizing done s with
  | nil =>
    refine ⟨done, s, ?_, rfl, [], (List.append_nil _).symm, rfl, fun a ha => ?_, owns_nil _,
      fun _ => List.Forall₂.nil⟩
    · rw [List.length_nil, List.replicate_zero, List.append_nil]
      rfl
    · cases ha
  | cons n nodes ih =>
    have hfirst := hbody n List.mem_cons_self s
    rw [List.length_cons, List.replicate_succ, fillFrom, getAt_append, verdictAll]
    match hverdict : verdict n (log s) with
    | none =>
      -- the body is out of bounds, and so is the loop
      rw [hverdict] at hfirst
      have hrun : body n blank s = .error outside := hfirst
      show _ = _
      simp only [bind, Except.bind, hrun]
    | some (false, k) =>
      -- the rest stays blank
      rw [hverdict] at hfirst
      obtain ⟨a, t, hrun, hlog, hinv', howns, -⟩ := hfirst
      refine ⟨done ++ a :: List.replicate nodes.length blank, t, ?_, hlog, _, rfl, ?_, ?_, ?_,
        fun h => by cases h⟩
      · simp only [bind, Except.bind, hrun, putAt_append]
        rfl
      · rw [List.length_cons, List.length_replicate]
      · intro a' ha'
        rcases List.mem_cons.mp ha' with rfl | ha'
        · exact hinv'
        · rwa [List.eq_of_mem_replicate ha']
      · rw [List.flatMap_cons]
        exact howns.append (owns_blanks hblank _ _)
    | some (true, k) =>
      rw [hverdict] at hfirst
      obtain ⟨a, t, hrun, rfl, hinv', howns, hgood⟩ := hfirst
      have hrest := ih (fun n' hn' => hbody n' (List.mem_cons_of_mem _ hn')) (done ++ [a]) t
      rw [List.append_assoc, List.singleton_append, List.length_append, List.length_singleton]
        at hrest
      simp only [bind, Except.bind, hrun, putAt_append, if_true]
      match hall : verdictAll verdict nodes (log t) with
      | none =>
        rw [hall] at hrest
        exact hrest
      | some (on, k) =>
        rw [hall] at hrest
        obtain ⟨table, u, hfill, hlog, rest, htable, hlength, hinvs, howns', hgoods⟩ := hrest
        refine ⟨table, u, hfill, hlog, a :: rest, ?_, congrArg Nat.succ hlength, ?_, ?_,
          fun hon => List.Forall₂.cons (hgood rfl) (hgoods hon)⟩
        · rw [htable, List.append_assoc, List.singleton_append]
        · intro a' ha'
          rcases List.mem_cons.mp ha' with rfl | ha'
          · exact hinv'
          · exact hinvs a' ha'
        · rw [List.flatMap_cons]
          exact howns.append howns'

end Fill

end HeavenFox.Logic
