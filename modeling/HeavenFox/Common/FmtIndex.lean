/-
# HeavenFox.Common.FmtIndex -- where the formatter reads its format

`do_fmt_convert` goes through the format with an index that it moves in several places: behind a
`%`, behind a `\001`, behind the `l` of a `%ld`, back again for an unknown conversion, and at the
end of every round.  Here the loop is a machine that takes one round at a time and keeps a log of
the indices it has read, in a format that is given as memory: what is behind the terminator is
there, and can be read.

`fmt_reads_iff` says exactly when it is read: in the round that finds a `\001` as the last
character, or a `%` there when the buffer is full.
-/
import HeavenFox.Common.Generic
import HeavenFox.Logic.Run

namespace HeavenFox.Common

open HeavenFox.Logic

/-! ## The machine -/

/-- The characters from `ptrFmt` on, with the terminator at `n`. -/
structure IsFormat (ptrFmt : Nat → UInt8) (n : Nat) : Prop where
  text : ∀ i < n, ptrFmt i ≠ 0
  terminator : ptrFmt n = 0

/-- The variables of the loop, the indices that have been read, and whether it has been left by a
`break`.  Its condition has been checked. -/
structure FmtIndex where
  i : Nat
  s : FmtState
  reads : List Nat
  full : Bool

/-- At the beginning of the loop; without any room nothing is read. -/
def fmtStart (m : Mem) (ptrBuf : Nat) (level : Option (UInt8 × UInt8)) (args : List FmtArg)
    (size : Nat) : FmtIndex where
  i := 0
  s := ⟨m, ptrBuf, 0, args, level⟩
  reads := if size < 1 then [] else [0]
  full := decide (size < 1)

/-- The `switch`, for all conversions; `stack` is what `dec_to_hex` and `dec_to_binary` find on the
stack in a call without a buffer and in one with the buffer. -/
def FmtState.convertAny (stack : DecStack × DecStack) (s : FmtState) (ptrBuf size : Nat)
    (conv next : UInt8) : Except Stop (Nat × FmtState) :=
  if conv = 120 ∨ conv = 112 then do
    let s ← s.convertHex stack.1 stack.2 ptrBuf size
    .ok (1, s)
  else if conv = 98 then do
    let s ← s.convertBinary stack.1 stack.2 ptrBuf size
    .ok (1, s)
  else s.conversion ptrBuf size conv next

/-- One round of the loop, and the check of its condition for the next one; `size` is the variable,
which the terminator has been taken off. -/
def fmtRound (ptrFmt : Nat → UInt8) (ptrBuf size : Nat) (t : FmtIndex) (stack : DecStack × DecStack) :
    Option FmtIndex :=
  if t.full ∨ ptrFmt t.i = 0 then none
  else if ptrFmt t.i = printLevelSoh then
    some { t with
      i := t.i + 2
      s := { t.s with level := t.s.level.map fun _ => (printLevelSoh, ptrFmt (t.i + 1)) }
      reads := (t.i + 2) :: (t.s.level.map fun _ => t.i + 1).toList ++ t.reads }
  else if ptrFmt t.i ≠ 37 then
    if add32 t.s.lenth 1 > size then some { t with full := true }
    else
      some { t with
        i := t.i + 1
        s := t.s.putChar ptrBuf (ptrFmt t.i)
        reads := (t.i + 1) :: t.reads }
  else
    match t.s.convertAny stack ptrBuf size (ptrFmt (t.i + 1)) (ptrFmt (t.i + 2)) with
    | .error _ => none
    | .ok (k, s) =>
      some { t with
        i := t.i + k + 1
        s
        reads := (t.i + k + 1) :: (if ptrFmt (t.i + 1) = 108 then [t.i + 2] else []) ++
          (t.i + 1) :: t.reads }

/-- Nothing behind the terminator has been read. -/
def FmtIndex.Inside (n : Nat) (t : FmtIndex) : Prop := ∀ k ∈ t.reads, k ≤ n

instance (n : Nat) (t : FmtIndex) : Decidable (t.Inside n) :=
  inferInstanceAs (Decidable (∀ k ∈ t.reads, k ≤ n))

/-- The last character is a `\001`, or a `%` that there is no room for. -/
def FmtIndex.Overruns (ptrFmt : Nat → UInt8) (size n : Nat) (t : FmtIndex) : Prop :=
  t.i + 1 = n ∧ (ptrFmt t.i = printLevelSoh ∨ ptrFmt t.i = 37 ∧ add32 t.s.lenth 1 > size)

/-! ## How far a conversion goes -/

section Conversions

variable {stack : DecStack × DecStack} {s s' : FmtState} {ptrBuf size k : Nat} {conv next : UInt8}

theorem exists_of_bind {α β : Type} {x : Except Stop α} {f : α → Except Stop β} {b : β}
    (h : x >>= f = .ok b) : ∃ a, x = .ok a ∧ f a = .ok b := by
  rcases x with e | a
  · cases h
  · exact ⟨a, rfl, h⟩

/-- A `%` at the end is taken for an unknown conversion. -/
theorem convertAny_zero : s.convertAny stack ptrBuf size 0 next =
    .ok (if add32 s.lenth 1 > size then (1, s) else (0, s.putChar ptrBuf 37)) := by
  show (if add32 s.lenth 1 > size then _ else _) = _
  split <;> rfl

/-- A conversion goes on by no more than its own characters. -/
theorem convertAny_le (h : s.convertAny stack ptrBuf size conv next = .ok (k, s')) :
    k ≤ 1 ∨ k = 2 ∧ conv = 108 ∧ next = 100 := by
  have hone : ∀ {x : Except Stop FmtState}, (do let s ← x; .ok (1, s)) = .ok (k, s') → k ≤ 1 := by
    intro x hx
    obtain ⟨a, -, ha⟩ := exists_of_bind hx
    exact (congrArg Prod.fst (Except.ok.inj ha)).ge
  unfold FmtState.convertAny FmtState.conversion at h
  split at h
  next => exact .inl (hone h)
  split at h
  next => exact .inl (hone h)
  split at h
  next => exact .inl (hone h)
  split at h
  next => exact .inl (hone h)
  split at h
  next hlong =>
    obtain ⟨⟨room, a⟩, -, ha⟩ := exists_of_bind h
    have hk : (if room then 2 else 1) = k := congrArg Prod.fst (Except.ok.inj ha)
    rcases room with _ | _
    · exact .inl hk.ge
    · exact .inr ⟨hk.symm, hlong⟩
  split at h
  next => exact .inl (hone h)
  split at h
  next => cases h
  split at h
  next => exact .inl (congrArg Prod.fst (Except.ok.inj h)).ge
  next =>
    have hk : 0 = k := congrArg Prod.fst (Except.ok.inj h)
    exact .inl (by omega)

end Conversions

/-! ## Inside the format -/

section Rounds

variable {ptrFmt : Nat → UInt8} {ptrBuf size n : Nat}

/-- The index itself is inside too. -/
structure FmtIndex.Bounded (n : Nat) (t : FmtIndex) : Prop where
  inside : t.Inside n
  index : t.i ≤ n

theorem FmtIndex.Inside.cons {t : FmtIndex} {new : List Nat} {s : FmtState} {i : Nat} {full : Bool}
    (h : t.Inside n) (hnew : ∀ k ∈ new, k ≤ n) :
    FmtIndex.Inside n ⟨i, s, new ++ t.reads, full⟩ := by
  intro k hk
  rcases List.mem_append.mp hk with hk | hk
  · exact hnew k hk
  · exact h k hk

/-- What a round with a `%` does. -/
theorem fmtRound_percent {t t' : FmtIndex} {stack : DecStack × DecStack} (hchar : ptrFmt t.i = 37)
    (h : fmtRound ptrFmt ptrBuf size t stack = some t') :
    ∃ k s, t.s.convertAny stack ptrBuf size (ptrFmt (t.i + 1)) (ptrFmt (t.i + 2)) = .ok (k, s) ∧
      t' = ⟨t.i + k + 1, s, ((t.i + k + 1) :: (if ptrFmt (t.i + 1) = 108 then [t.i + 2] else [])) ++
        ((t.i + 1) :: t.reads), t.full⟩ := by
  unfold fmtRound at h
  split at h
  next => cases h
  next =>
    rw [if_neg (by rw [hchar]; decide), if_neg (not_not.mpr hchar)] at h
    split at h
    next => cases h
    next k s hconv => exact ⟨k, s, hconv, (Option.some.inj h).symm⟩

/-- **A round that does not overrun** reads inside the format. -/
theorem fmtRound_bounded (hfmt : IsFormat ptrFmt n) (t : FmtIndex) (stack : DecStack × DecStack)
    (t' : FmtIndex) (ht : t.Bounded n) (hgood : ¬ t.Overruns ptrFmt size n)
    (h : fmtRound ptrFmt ptrBuf size t stack = some t') : t'.Bounded n := by
  obtain ⟨hinside, hindex⟩ := ht
  have hround := h
  unfold fmtRound at h
  split at h
  next => cases h
  next hon =>
    have hne : ptrFmt t.i ≠ 0 := fun heq => hon (.inr heq)
    have hlt : t.i < n := by
      refine Nat.lt_of_le_of_ne hindex fun heq => hne ?_
      rw [heq, hfmt.terminator]
    split at h
    next hsoh =>
      -- the character behind it is no terminator, or is not the last one
      have hnext : t.i + 2 ≤ n := by
        by_contra hover
        exact hgood ⟨by omega, .inl hsoh⟩
      rw [← Option.some.inj h]
      refine ⟨hinside.cons fun k hk => ?_, hnext⟩
      rcases List.mem_cons.mp hk with rfl | hk
      · exact hnext
      · obtain ⟨-, -, rfl⟩ := Option.mem_map.mp (Option.mem_toList.mp hk)
        omega
    next =>
      split at h
      next =>
        split at h
        next =>
          rw [← Option.some.inj h]
          exact ⟨hinside, hindex⟩
        next =>
          rw [← Option.some.inj h]
          have hnew : ∀ k ∈ [t.i + 1], k ≤ n := by
            intro k hk
            rw [List.mem_singleton.mp hk]
            exact hlt
          exact ⟨hinside.cons hnew, hlt⟩
      next hpercent =>
        obtain ⟨k, s, hconv, rfl⟩ := fmtRound_percent (not_not.mp hpercent) hround
        have hbehind : t.i + k + 1 ≤ n ∧ (ptrFmt (t.i + 1) = 108 → t.i + 2 ≤ n) := by
          by_cases hend : t.i + 1 = n
          · -- behind the last character there is the terminator
            rw [hend, hfmt.terminator, convertAny_zero, if_neg fun hfull =>
              hgood ⟨hend, .inr ⟨not_not.mp hpercent, hfull⟩⟩] at hconv
            have hk : 0 = k := congrArg Prod.fst (Except.ok.inj hconv)
            refine ⟨by omega, fun hlong => ?_⟩
            rw [hend, hfmt.terminator] at hlong
            exact absurd hlong (by decide)
          · refine ⟨?_, fun _ => by omega⟩
            rcases convertAny_le hconv with hk | ⟨rfl, -, hnext⟩
            · omega
            · have hlast : t.i + 2 ≠ n := by
                intro heq
                rw [heq, hfmt.terminator] at hnext
                exact absurd hnext (by decide)
              omega
        refine ⟨fun j hj => ?_, hbehind.1⟩
        rcases List.mem_append.mp hj with hj | hj
        · rcases List.mem_cons.mp hj with rfl | hj
          · exact hbehind.1
          · split at hj
            next hlong =>
              rw [List.mem_singleton.mp hj]
              exact hbehind.2 hlong
            next => exact absurd hj List.not_mem_nil
        · rcases List.mem_cons.mp hj with rfl | hj
          · exact hlt
          · exact hinside j hj

/-- **A round that overruns** reads the character behind the terminator. -/
theorem fmtRound_overruns (hfmt : IsFormat ptrFmt n) (t : FmtIndex) (stack : DecStack × DecStack)
    (t' : FmtIndex) (hbad : t.Overruns ptrFmt size n)
    (h : fmtRound ptrFmt ptrBuf size t stack = some t') : ¬ t'.Inside n := by
  obtain ⟨hend, hsoh | ⟨hpercent, hfull⟩⟩ := hbad
  · unfold fmtRound at h
    split at h
    next => cases h
    next =>
      intro hinside
      have hread := hinside (t.i + 2) (by rw [← Option.some.inj h]; exact List.mem_cons_self)
      omega
  · obtain ⟨k, s, hconv, rfl⟩ := fmtRound_percent hpercent h
    rw [hend, hfmt.terminator, convertAny_zero, if_pos hfull] at hconv
    have hk : 1 = k := congrArg Prod.fst (Except.ok.inj hconv)
    intro hinside
    have hread := hinside (t.i + k + 1) List.mem_cons_self
    omega

theorem fmtStart_bounded (m : Mem) (level : Option (UInt8 × UInt8)) (args : List FmtArg) (n : Nat) :
    (fmtStart m ptrBuf level args size).Bounded n := by
  refine ⟨fun k hk => ?_, Nat.zero_le n⟩
  change k ∈ (if size < 1 then [] else [0]) at hk
  split at hk
  next => exact absurd hk List.not_mem_nil
  next =>
    rw [List.mem_singleton.mp hk]
    exact Nat.zero_le n

end Rounds

/-- **Which rounds read behind the terminator.**  For every format, buffer and size, and whatever is on
the stack, a run of the loop stays inside the format if and only if no round finds a `\001` as the
last character, or a `%` there that there is no room for. -/
theorem fmt_reads_iff (ptrFmt : Nat → UInt8) (n : Nat) (hfmt : IsFormat ptrFmt n) (m : Mem)
    (ptrBuf : Nat) (level : Option (UInt8 × UInt8)) (args : List FmtArg) (size : Nat)
    (rounds : List (DecStack × DecStack)) (t : FmtIndex)
    (hrun : exec (fmtRound ptrFmt ptrBuf (size - 1)) (fmtStart m ptrBuf level args size) rounds =
      some t) :
    Always (fmtRound ptrFmt ptrBuf (size - 1)) (FmtIndex.Inside n)
        (fmtStart m ptrBuf level args size) rounds ↔
      Meets (fmtRound ptrFmt ptrBuf (size - 1)) (fun t _ => ¬ t.Overruns ptrFmt (size - 1) n)
        (fmtStart m ptrBuf level args size) rounds :=
  always_iff_meets (fmtRound_bounded hfmt) (fun _ ht => ht.inside)
    (fun t stack t' _ hbad h => fmtRound_overruns hfmt t stack t' (not_not.mp hbad) h)
    (fmtStart_bounded m level args n) hrun

/-- The characters of a format, and the terminator behind them. -/
def CString.at (fmt : CString) (i : Nat) : UInt8 := fmt.val.getD i 0

theorem CString.isFormat (fmt : CString) : IsFormat fmt.at fmt.val.length where
  text := by
    intro i hi hzero
    rw [CString.at, List.getD_eq_getElem fmt.val 0 hi] at hzero
    exact fmt.property (List.mem_of_getElem hzero)
  terminator := List.getD_eq_default fmt.val 0 (Nat.le_refl _)

/-- A format that does not end in a `%` or a `\001` is never left. -/
theorem fmt_reads_inside (ptrFmt : Nat → UInt8) (n : Nat) (hfmt : IsFormat ptrFmt n) (m : Mem)
    (ptrBuf : Nat) (level : Option (UInt8 × UInt8)) (args : List FmtArg) (size : Nat)
    (hlast : ∀ i, i + 1 = n → ptrFmt i ≠ printLevelSoh ∧ ptrFmt i ≠ 37)
    (rounds : List (DecStack × DecStack)) :
    Always (fmtRound ptrFmt ptrBuf (size - 1)) (FmtIndex.Inside n)
      (fmtStart m ptrBuf level args size) rounds := by
  have hgood : ∀ t : FmtIndex, ¬ t.Overruns ptrFmt (size - 1) n := by
    rintro t ⟨hend, hsoh | ⟨hpercent, -⟩⟩
    · exact (hlast t.i hend).1 hsoh
    · exact (hlast t.i hend).2 hpercent
  refine Always.imp (fun _ ht => ht.inside) (always_of_meets (c := fun _ _ => True)
    (fun t stack t' ht _ h => fmtRound_bounded hfmt t stack t' ht (hgood t) h)
    (fmtStart_bounded m level args n) (meets_of_forall fun _ _ => trivial))

/-- Nothing in particular on the stack. -/
def someStack : DecStack × DecStack := (⟨0, fun _ => 0⟩, ⟨0, fun _ => 0⟩)

/-- `a%` -/
def percentFmt : CString := ⟨[97, 37], by decide⟩

theorem fmt_reads_iff_percent :
    Always (fmtRound percentFmt.at 0x8c000 (16 - 1)) (FmtIndex.Inside 2)
        (fmtStart (fun _ => 0) 0x8c000 none [] 16) [someStack, someStack] ↔
      Meets (fmtRound percentFmt.at 0x8c000 (16 - 1))
        (fun t _ => ¬ t.Overruns percentFmt.at (16 - 1) 2)
        (fmtStart (fun _ => 0) 0x8c000 none [] 16) [someStack, someStack] :=
  fmt_reads_iff percentFmt.at 2 percentFmt.isFormat _ 0x8c000 none [] 16 [someStack, someStack] _ rfl

/-- `\001` -/
def sohFmt : CString := ⟨[1], by decide⟩

/-- The character behind the terminator is read: for a `\001`, and for `a%` in a buffer of two
characters. -/
theorem terminator_is_jumped :
    (∃ t, exec (fmtRound sohFmt.at 0x8c000 (16 - 1)) (fmtStart (fun _ => 0) 0x8c000 none [] 16)
        [someStack] = some t ∧ 2 ∈ t.reads ∧ ¬ t.Inside 1) ∧
      (∃ t, exec (fmtRound percentFmt.at 0x8c000 (2 - 1)) (fmtStart (fun _ => 0) 0x8c000 none [] 2)
        [someStack, someStack] = some t ∧ 3 ∈ t.reads ∧ ¬ t.Inside 2) :=
  ⟨⟨_, rfl, by decide, by decide⟩, ⟨_, rfl, by decide, by decide⟩⟩

end HeavenFox.Common
