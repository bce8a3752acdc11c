/-
# HeavenFox.Common.FmtBounded -- formatting into a buffer of limited size

A conversion that does not fit into the buffer is left out, and later ones that do fit are still
written; a text character that does not fit ends the output.  `boundedFrom` is what is left of the
text, by the pieces of `convText`.

`fmtLoop_bounded` says that the loop counts and writes just that.  There is such a text for every
format whose index stays inside and whose conversions find their arguments (`exists_bounded`), so
`bounded_format` says for all of these what the buffer holds.
-/
import HeavenFox.Common.FmtIndex

namespace HeavenFox.Common

open HeavenFox.Logic

/-! ## What is left of the text -/

/-- The text of the rest of a format, of which `i` characters are not looked at, as far as there is
room for it. -/
def boundedFrom : List UInt8 → Nat → Nat → List FmtArg → Option (List UInt8)
  | [], 0, _, _ => some []
  | [], _ + 1, _, _ => none
  | _ :: rest, i + 1, room, args => boundedFrom rest i room args
  | ch :: rest, 0, room, args =>
    if ch = printLevelSoh then boundedFrom rest 1 room args
    else if ch ≠ 37 then
      if room = 0 then some [] else (boundedFrom rest 0 (room - 1) args).map fun out => ch :: out
    else
      match convText (rest.headD 0) (rest.tail.headD 0) args with
      | none => none
      | some (i, text, args) =>
        if text.length > room then boundedFrom rest 1 room args
        else (boundedFrom rest i (room - text.length) args).map fun out => text ++ out

/-- The text of a format in a buffer of a given size. -/
def boundedText (size : Nat) (fmt : CString) (args : List FmtArg) : Option (List UInt8) :=
  boundedFrom fmt.val 0 (size - 1) args

/-- Nothing that is counted goes beyond 32 bits. -/
structure Countable (size : Nat) (args : List FmtArg) : Prop where
  numbers : size + 20 < 2 ^ 32
  strings : ∀ str, FmtArg.str str ∈ args → size + str.val.length < 2 ^ 32

theorem Countable.tail {size : Nat} {arg : FmtArg} {args : List FmtArg}
    (h : Countable size (arg :: args)) : Countable size args :=
  ⟨h.numbers, fun str hstr => h.strings str (List.mem_cons_of_mem arg hstr)⟩

theorem decimal_length_le (num : UInt64) : (decimal num.toNat).length ≤ 20 := by
  have hlt := num.toNat_lt
  rw [decimal_length]
  exact digitsLow_length_le (k := 19) (by omega)

/-- The text of a conversion is one of a number, or of the string that is taken. -/
theorem Countable.convText {size i : Nat} {conv next : UInt8} {args args' : List FmtArg}
    {text : List UInt8} (h : Countable size args)
    (hconv : convText conv next args = some (i, text, args')) :
    size + text.length < 2 ^ 32 ∧ Countable size args' := by
  have hnumbers := h.numbers
  unfold HeavenFox.Common.convText at hconv
  split at hconv
  next =>
    split at hconv
    next num rest =>
      cases hconv
      exact ⟨show size + 1 < 2 ^ 32 by omega, h.tail⟩
    next => cases hconv
  split at hconv
  next =>
    split at hconv
    next num rest =>
      cases hconv
      have hlen := decimal_length_le num.toUInt64
      rw [UInt32.toNat_toUInt64] at hlen
      exact ⟨by omega, h.tail⟩
    next => cases hconv
  split at hconv
  next =>
    split at hconv
    next num rest =>
      cases hconv
      have hlen := decimal_length_le num
      exact ⟨by omega, h.tail⟩
    next => cases hconv
  split at hconv
  next =>
    split at hconv
    next str rest =>
      cases hconv
      exact ⟨h.strings str List.mem_cons_self, h.tail⟩
    next => cases hconv
  split at hconv
  next => cases hconv
  next =>
    cases hconv
    exact ⟨show size + 1 < 2 ^ 32 by omega, h⟩

/-! ## What a conversion without room does -/

section Full

variable {s : FmtState} {ptrBuf size i : Nat} {conv next : UInt8} {text : List UInt8}
  {args : List FmtArg}

/-- **A conversion that does not fit** takes its argument and is left out. -/
theorem conversion_full (h : convText conv next s.args = some (i, text, args))
    (hfull : s.lenth + text.length > size) (hword : s.lenth + text.length < 2 ^ 32) :
    s.conversion ptrBuf size conv next = .ok (1, { s with args }) := by
  have hadd : add32 s.lenth text.length = s.lenth + text.length := add32_of_lt hword
  unfold convText at h
  unfold FmtState.conversion
  split at h
  next hconv =>
    split at h
    next num rest hargs =>
      cases h
      change add32 s.lenth 1 = s.lenth + 1 at hadd
      change s.lenth + 1 > size at hfull
      rw [if_pos hconv, FmtState.convertChar, hargs]
      dsimp only
      rw [hadd, if_pos hfull]
      rfl
    next => cases h
  next hchar =>
  rw [if_neg hchar]
  split at h
  next hconv =>
    split at h
    next num rest hargs =>
      cases h
      rw [if_pos hconv, FmtState.convertInt, hargs]
      dsimp only
      rw [convertNumberToString_eq, UInt32.toNat_toUInt64, hadd, if_pos hfull]
      rfl
    next => cases h
  next hint =>
  rw [if_neg hint]
  split at h
  next hconv =>
    split at h
    next num rest hargs =>
      cases h
      rw [if_pos hconv, FmtState.convertLong, hargs]
      dsimp only
      rw [convertNumberToString_eq, hadd, if_pos hfull]
      rfl
    next => cases h
  next hlong =>
  rw [if_neg hlong]
  split at h
  next hconv =>
    split at h
    next str rest hargs =>
      cases h
      have hlen : getStringLenth str = str.val.length := Nat.mod_eq_of_lt (by omega)
      rw [if_pos hconv, FmtState.convertStr, hargs]
      dsimp only
      rw [hlen, hadd, if_pos hfull]
      rfl
    next => cases h
  next hstr =>
  rw [if_neg hstr]
  split at h
  next => cases h
  next hknown =>
    cases h
    change add32 s.lenth 1 = s.lenth + 1 at hadd
    change s.lenth + 1 > size at hfull
    rw [if_neg hknown, hadd, if_pos hfull]

/-- The room in front of the rest. -/
theorem FmtState.Room.split {n : Nat} (h : s.Room ptrBuf size n) (hle : text.length ≤ n) :
    s.Room ptrBuf size (text ++ List.replicate (n - text.length) 0).length := by
  rwa [List.length_append, List.length_replicate, Nat.add_sub_cancel' hle]

/-- The room behind some text. -/
theorem FmtState.Room.behind {n : Nat} (h : s.Room ptrBuf size n) (hle : text.length ≤ n) :
    (s.emit ptrBuf text).Room ptrBuf size (n - text.length) := by
  have hemit := (h.split hle).emit
  rwa [List.length_replicate] at hemit

/-- **A conversion that fits** emits its text. -/
theorem conversion_fits {n : Nat} (h : convText conv next s.args = some (i, text, args))
    (hroom : s.Room ptrBuf size n) (hle : text.length ≤ n) :
    s.conversion ptrBuf size conv next = .ok (i, { s with args }.emit ptrBuf text) :=
  conversion_eq h (hroom.split hle)

theorem putChar_fits {n : Nat} (ch : UInt8) (hroom : s.Room ptrBuf size n) (hpos : 0 < n) :
    s.putChar ptrBuf ch = s.emit ptrBuf [ch] ∧ ¬ add32 s.lenth 1 > size := by
  have hone : s.Room ptrBuf size ([ch] ++ List.replicate (n - 1) 0).length := hroom.split hpos
  exact putChar_eq hone

end Full

/-! ## One pass -/

/-- The whole rest of the buffer. -/
abbrev FmtState.Fits (s : FmtState) (ptrBuf size : Nat) : Prop :=
  s.Room ptrBuf size (size - s.lenth)

theorem FmtState.Room.lenth_le {s : FmtState} {ptrBuf size n : Nat} (h : s.Room ptrBuf size n) :
    s.lenth ≤ size := (Nat.le_add_right _ n).trans h.counted

theorem FmtState.Room.fits_emit {s : FmtState} {ptrBuf size : Nat} {text : List UInt8}
    (h : s.Fits ptrBuf size) (hle : text.length ≤ size - s.lenth) :
    (s.emit ptrBuf text).Fits ptrBuf size := by
  have hbehind := h.behind hle
  rwa [Nat.sub_sub] at hbehind

/-- **A bounded pass** emits the bounded text.  By induction on the format, as `fmtLoop_spec`. -/
theorem fmtLoop_bounded {fmt out : List UInt8} {s : FmtState} {ptrBuf size i : Nat}
    (h : boundedFrom fmt i (size - s.lenth) s.args = some out) (hfits : s.Fits ptrBuf size)
    (hcount : Countable size s.args) :
    ∃ args level, fmtLoop ptrBuf size fmt i s = .ok { s.emit ptrBuf out with args, level } ∧
      out.length ≤ size - s.lenth := by
  induction fmt generalizing i s out with
  | nil =>
    rcases i with _ | i
    · cases h
      exact ⟨s.args, s.level, by rw [fmtLoop, emit_nil], Nat.zero_le _⟩
    · cases h
  | cons ch fmt ih =>
    rcases i with _ | i
    swap
    · exact ih h hfits hcount
    have hle := hfits.lenth_le
    rw [boundedFrom] at h
    rw [fmtLoop]
    split at h
    next hsoh =>
      rw [if_pos hsoh]
      obtain ⟨args, level, hloop, hlen⟩ := ih (s := { s with
        level := s.level.map fun _ => (printLevelSoh, fmt.headD 0) }) h
        (hfits.withArgs s.args _) hcount
      exact ⟨args, level, hloop, hlen⟩
    next hsoh =>
    rw [if_neg hsoh]
    split at h
    next hplain =>
      rw [if_pos hplain]
      have hnumbers := hcount.numbers
      split at h
      next hfull =>
        cases h
        rw [add32_of_lt (by omega), if_pos (by omega)]
        exact ⟨s.args, s.level, by rw [emit_nil], Nat.zero_le _⟩
      next hroom =>
        obtain ⟨out', hrest, rfl⟩ := Option.map_eq_some_iff.mp h
        obtain ⟨hput, hfit⟩ := putChar_fits ch hfits (Nat.pos_of_ne_zero hroom)
        have hone : [ch].length ≤ size - s.lenth := Nat.pos_of_ne_zero hroom
        rw [Nat.sub_sub] at hrest
        obtain ⟨args, level, hloop, hlen⟩ := ih (s := s.emit ptrBuf [ch]) hrest (hfits.fits_emit hone)
          hcount
        change out'.length ≤ size - (s.lenth + 1) at hlen
        refine ⟨args, level, ?_, ?_⟩
        · rw [if_neg hfit, hput, hloop, emit_emit]
          rfl
        · rw [List.length_cons]
          omega
    next hpercent =>
    rw [if_neg hpercent]
    split at h
    next => cases h
    next i text args hconv =>
      obtain ⟨hword, hcount'⟩ := hcount.convText hconv
      split at h
      next hlong =>
        rw [conversion_full hconv (by omega) (by omega)]
        exact ih (s := { s with args }) h (hfits.withArgs args s.level) hcount'
      next hshort =>
        obtain ⟨out', hrest, rfl⟩ := Option.map_eq_some_iff.mp h
        have hle' : text.length ≤ size - s.lenth := Nat.le_of_not_lt hshort
        have hfits' : ({ s with args } : FmtState).Fits ptrBuf size := hfits.withArgs args s.level
        rw [Nat.sub_sub] at hrest
        obtain ⟨args', level, hloop, hlen⟩ :=
          ih (s := ({ s with args } : FmtState).emit ptrBuf text) hrest (hfits'.fits_emit hle') hcount'
        change out'.length ≤ size - (s.lenth + text.length) at hlen
        refine ⟨args', level, ?_, ?_⟩
        · rw [conversion_fits hconv hfits hle']
          show fmtLoop ptrBuf size fmt i _ = _
          rw [hloop, emit_emit]
          rfl
        · rw [List.length_append]
          omega

/-! ## Formats that have a text -/

/-- The loop has read inside the format, and if a conversion comes next it is none of `%x`, `%p` and
`%b` and the next argument is of its kind. -/
structure FmtIndex.Proper (fmt : CString) (t : FmtIndex) : Prop where
  inside : t.Inside fmt.val.length
  served : t.full = false → fmt.at t.i = 37 →
    convText (fmt.at (t.i + 1)) (fmt.at (t.i + 2)) t.s.args ≠ none

/-- Every state that the loop comes to is proper. -/
def FmtIndex.RunsProper (fmt : CString) (ptrBuf size : Nat) (t : FmtIndex) : Prop :=
  ∀ rounds, Always (fmtRound fmt.at ptrBuf size) (FmtIndex.Proper fmt) t rounds

section Index

variable {fmt : CString} {ptrBuf size : Nat}

theorem CString.headD_drop (fmt : CString) (i : Nat) : (fmt.val.drop i).headD 0 = fmt.at i := by
  rw [List.headD_eq_head?_getD, List.head?_drop, CString.at, List.getD_eq_getElem?_getD]

theorem CString.drop_eq {i : Nat} (hi : i < fmt.val.length) :
    fmt.val.drop i = fmt.at i :: fmt.val.drop (i + 1) := by
  rw [List.drop_eq_getElem_cons hi, CString.at, List.getD_eq_getElem fmt.val 0 hi]

/-- Characters that are not looked at. -/
theorem boundedFrom_drop {rest : List UInt8} {k room : Nat} {args : List FmtArg}
    (h : k ≤ rest.length) : boundedFrom rest k room args = boundedFrom (rest.drop k) 0 room args := by
  induction k generalizing rest with
  | zero => rfl
  | succ k ih =>
    rcases rest with _ | ⟨ch, rest⟩
    · exact absurd h (Nat.not_succ_le_zero k)
    · exact ih (Nat.le_of_succ_le_succ h)

/-- `%x`, `%p` and `%b` have no text. -/
theorem convertAny_eq_conversion (stack : DecStack × DecStack) (ptrBuf size : Nat) {s : FmtState}
    {conv next : UInt8} (h : convText conv next s.args ≠ none) :
    s.convertAny stack ptrBuf size conv next = s.conversion ptrBuf size conv next := by
  have hhex : ¬ (conv = 120 ∨ conv = 112) := by
    rintro (rfl | rfl) <;> exact h rfl
  have hbinary : conv ≠ 98 := by
    rintro rfl
    exact h rfl
  rw [FmtState.convertAny, if_neg hhex, if_neg hbinary]

/-- What comes behind a proper state is proper. -/
theorem FmtIndex.RunsProper.next {t t' : FmtIndex} (h : t.RunsProper fmt ptrBuf size)
    (hstep : fmtRound fmt.at ptrBuf size t someStack = some t') : t'.RunsProper fmt ptrBuf size :=
  fun rounds => (h (someStack :: rounds)).2 t' hstep

/-! The rounds that go on. -/

section Rounds

variable {t : FmtIndex} {stack : DecStack × DecStack}

theorem fmtRound_soh (hon : ¬ (t.full = true ∨ fmt.at t.i = 0)) (h : fmt.at t.i = printLevelSoh) :
    fmtRound fmt.at ptrBuf size t stack = some { t with
      i := t.i + 2
      s := { t.s with level := t.s.level.map fun _ => (printLevelSoh, fmt.at (t.i + 1)) }
      reads := (t.i + 2) :: (t.s.level.map fun _ => t.i + 1).toList ++ t.reads } := by
  rw [fmtRound, if_neg hon, if_pos h]

theorem fmtRound_char (hon : ¬ (t.full = true ∨ fmt.at t.i = 0)) (hsoh : fmt.at t.i ≠ printLevelSoh)
    (hplain : fmt.at t.i ≠ 37) (hfit : ¬ add32 t.s.lenth 1 > size) :
    fmtRound fmt.at ptrBuf size t stack = some { t with
      i := t.i + 1
      s := t.s.putChar ptrBuf (fmt.at t.i)
      reads := (t.i + 1) :: t.reads } := by
  rw [fmtRound, if_neg hon, if_neg hsoh, if_pos hplain, if_neg hfit]

theorem fmtRound_convert {k : Nat} {s : FmtState} (hon : ¬ (t.full = true ∨ fmt.at t.i = 0))
    (hpercent : fmt.at t.i = 37)
    (hconv : t.s.convertAny stack ptrBuf size (fmt.at (t.i + 1)) (fmt.at (t.i + 2)) = .ok (k, s)) :
    fmtRound fmt.at ptrBuf size t stack = some { t with
      i := t.i + k + 1
      s
      reads := (t.i + k + 1) :: (if fmt.at (t.i + 1) = 108 then [t.i + 2] else []) ++
        (t.i + 1) :: t.reads } := by
  have hsoh : fmt.at t.i ≠ printLevelSoh := by
    rw [hpercent]
    decide
  rw [fmtRound, if_neg hon, if_neg hsoh, if_neg (not_not.mpr hpercent), hconv]

end Rounds

/-- **There is a bounded text**, from every state from which the loop is proper.  By induction on what
is left of the format; each round goes on by at least one character. -/
theorem exists_bounded {t : FmtIndex} (hproper : t.RunsProper fmt ptrBuf size)
    (hover : t.full = false) (hindex : t.i ≤ fmt.val.length) (hfits : t.s.Fits ptrBuf size)
    (hcount : Countable size t.s.args) :
    ∃ out, boundedFrom (fmt.val.drop t.i) 0 (size - t.s.lenth) t.s.args = some out := by
  induction hleft : fmt.val.length - t.i using Nat.strong_induction_on generalizing t with
  | _ left ih =>
  rcases Nat.eq_or_lt_of_le hindex with hend | hlt
  · rw [hend, List.drop_length]
    exact ⟨[], rfl⟩
  -- a round to a state that goes on
  have hnext : ∀ t', fmtRound fmt.at ptrBuf size t someStack = some t' → t'.full = false →
      t.i < t'.i → t'.i ∈ t'.reads → t'.s.Fits ptrBuf size → Countable size t'.s.args →
      t'.i ≤ fmt.val.length ∧
        ∃ out, boundedFrom (fmt.val.drop t'.i) 0 (size - t'.s.lenth) t'.s.args = some out := by
    intro t' hstep hover' hmore hread hfits' hcount'
    have hproper' := hproper.next hstep
    have hindex' := (always_head (hproper' [])).inside t'.i hread
    exact ⟨hindex', ih _ (by omega) hproper' hover' hindex' hfits' hcount' rfl⟩
  have hne : ¬ (t.full = true ∨ fmt.at t.i = 0) := by
    rintro (htrue | hzero)
    · rw [hover] at htrue
      exact Bool.false_ne_true htrue
    · exact fmt.isFormat.text t.i hlt hzero
  have hrest : (fmt.val.drop (t.i + 1)).length = fmt.val.length - (t.i + 1) := List.length_drop
  rw [CString.drop_eq hlt, boundedFrom]
  by_cases hsoh : fmt.at t.i = printLevelSoh
  · obtain ⟨hindex', out, hout⟩ := hnext _ (fmtRound_soh hne hsoh) hover (show t.i < t.i + 2 by omega)
      List.mem_cons_self (hfits.withArgs t.s.args _) hcount
    change t.i + 2 ≤ fmt.val.length at hindex'
    rw [if_pos hsoh, boundedFrom_drop (by omega), List.drop_drop]
    exact ⟨out, hout⟩
  rw [if_neg hsoh]
  by_cases hpercent : fmt.at t.i = 37
  swap
  · rw [if_pos hpercent]
    by_cases hfull : size - t.s.lenth = 0
    · exact ⟨[], if_pos hfull⟩
    obtain ⟨hput, hfit⟩ := putChar_fits (fmt.at t.i) hfits (Nat.pos_of_ne_zero hfull)
    have hone : [fmt.at t.i].length ≤ size - t.s.lenth := Nat.pos_of_ne_zero hfull
    obtain ⟨-, out, hout⟩ := hnext _ (fmtRound_char hne hsoh hpercent hfit) hover
      (Nat.lt_succ_self t.i) List.mem_cons_self (hput ▸ hfits.fits_emit hone) (hput ▸ hcount)
    rw [hput] at hout
    refine ⟨fmt.at t.i :: out, ?_⟩
    rw [if_neg hfull, Nat.sub_sub]
    exact congrArg (Option.map fun out => fmt.at t.i :: out) hout
  have hserved := (always_head (hproper [])).served hover hpercent
  have htail : (fmt.val.drop (t.i + 1)).tail.headD 0 = fmt.at (t.i + 2) := by
    rw [List.tail_drop, CString.headD_drop]
  have hany := convertAny_eq_conversion someStack ptrBuf size hserved
  obtain ⟨⟨k, text, args⟩, hconv⟩ := Option.ne_none_iff_exists'.mp hserved
  obtain ⟨hword, hcount'⟩ := hcount.convText hconv
  have hle := hfits.lenth_le
  rw [if_neg (not_not.mpr hpercent), CString.headD_drop, htail, hconv]
  dsimp only
  by_cases hlong : text.length > size - t.s.lenth
  · rw [conversion_full hconv (by omega) (by omega)] at hany
    obtain ⟨hindex', out, hout⟩ := hnext _ (fmtRound_convert hne hpercent hany) hover
      (show t.i < t.i + 1 + 1 by omega) List.mem_cons_self (hfits.withArgs args t.s.level) hcount'
    change t.i + 1 + 1 ≤ fmt.val.length at hindex'
    rw [if_pos hlong, boundedFrom_drop (by omega), List.drop_drop]
    exact ⟨out, hout⟩
  · have hshort : text.length ≤ size - t.s.lenth := Nat.le_of_not_lt hlong
    have hfits' : ({ t.s with args } : FmtState).Fits ptrBuf size := hfits.withArgs args t.s.level
    rw [conversion_fits hconv hfits hshort] at hany
    obtain ⟨hindex', out, hout⟩ := hnext _ (fmtRound_convert hne hpercent hany) hover
      (show t.i < t.i + k + 1 by omega) List.mem_cons_self (hfits'.fits_emit hshort) hcount'
    change t.i + k + 1 ≤ fmt.val.length at hindex'
    have hskip : t.i + 1 + k = t.i + k + 1 := by omega
    rw [if_neg hlong, boundedFrom_drop (by omega), List.drop_drop, Nat.sub_sub, hskip]
    exact ⟨text ++ out, congrArg (Option.map fun out => text ++ out) hout⟩

end Index

/-! ## The buffer -/

/-- The string lies in memory, and no part of it in the buffer. -/
def BesideBuffer (m : Mem) (ptr size : Nat) (str : CString) : Prop :=
  ∃ a, CStrAt m a str.val ∧ a + str.val.length < 2 ^ 32 ∧
    (a + str.val.length < ptr ∨ ptr + size ≤ a)

theorem countable_of_beside {m : Mem} {ptr size : Nat} {args : List FmtArg}
    (hblock : ValidBlock ptr size)
    (hstrings : ∀ str, FmtArg.str str ∈ args → BesideBuffer m ptr size str) :
    Countable (size - 1) args := by
  have hbelow := hblock.below
  refine ⟨by omega, fun str hstr => ?_⟩
  obtain ⟨a, -, hend, hbeside⟩ := hstrings str hstr
  rcases hbeside with hbefore | hbehind <;> omega

/-- **What the buffer holds**, for every format whose index stays inside and whose conversions find
their arguments: the bounded text and its terminator, and nothing outside the buffer is changed. -/
theorem bounded_format (m : Mem) (ptr size : Nat) (level : Option (UInt8 × UInt8)) (fmt : CString)
    (args : List FmtArg) (hsize : 1 ≤ size) (hblock : ValidBlock ptr size)
    (hstrings : ∀ str, FmtArg.str str ∈ args → BesideBuffer m ptr size str)
    (hproper : (fmtStart m ptr level args size).RunsProper fmt ptr (size - 1)) :
    ∃ out s, boundedText size fmt args = some out ∧
      doFmtConvert m ptr level fmt args size = .ok (out.length, s) ∧ out.length ≤ size - 1 ∧
      BytesAt s.mem ptr (out ++ [0]) ∧ ∀ x, x < ptr ∨ ptr + size ≤ x → s.mem x = m x := by
  obtain ⟨hvalid, hbelow⟩ := hblock
  have hpos := (isValid_iff.mp hvalid).1
  have hcount := countable_of_beside ⟨hvalid, hbelow⟩ hstrings
  have hfits : FmtState.Fits ⟨m, ptr, 0, args, level⟩ ptr (size - 1) := by
    refine ⟨?_, by omega, ?_⟩
    · show 0 + (size - 1 - 0) ≤ size - 1
      omega
    · rw [hvalid]
      show 0 < ptr ∧ ptr + (size - 1 - 0) < 0xfffff000
      omega
  obtain ⟨out, hout⟩ :=
    exists_bounded hproper (decide_eq_false (by omega)) (Nat.zero_le _) hfits hcount
  have htext : boundedText size fmt args = some out := hout
  have hfrom : boundedFrom fmt.val 0 (size - 1 - 0) args = some out := hout
  obtain ⟨args', level', hloop, hlen⟩ :=
    fmtLoop_bounded (s := ⟨m, ptr, 0, args, level⟩) hfrom hfits hcount
  change out.length ≤ size - 1 at hlen
  refine ⟨out, ⟨storeBytes m ptr (out ++ [0]), ptr + out.length, out.length, args', level'⟩, htext,
    ?_, hlen, bytesAt_storeBytes m ptr _, fun x hx => storeBytes_of_outside ?_⟩
  · rw [emit_write hvalid, Nat.zero_add] at hloop
    rw [doFmtConvert, if_neg (by omega), hloop, storeBytes_append]
    simp only [bind, Except.bind, hvalid, if_true, pure, Except.pure]
    rfl
  · rw [List.length_append, List.length_singleton]
    omega

/-- `%s%d!` -/
def tightFmt : CString := ⟨[37, 115, 37, 100, 33], by decide⟩

/-- The string `ok`, in memory. -/
def tightMem : Mem := storeBytes (fun _ => 7) 0x70000 [111, 107, 0]

/-- In a buffer of five characters there is no room for the number. -/
theorem bounded_format_tight :
    ∃ out s, boundedText 5 tightFmt [.str ⟨[111, 107], by decide⟩, .word 4096] = some out ∧
      doFmtConvert tightMem 0x8c000 none tightFmt [.str ⟨[111, 107], by decide⟩, .word 4096] 5 =
        .ok (out.length, s) ∧ out.length ≤ 5 - 1 ∧
      BytesAt s.mem 0x8c000 (out ++ [0]) ∧
      ∀ x, x < 0x8c000 ∨ 0x8c000 + 5 ≤ x → s.mem x = tightMem x := by
  refine bounded_format tightMem 0x8c000 5 none tightFmt _ (by decide) ⟨by decide, by decide⟩ ?_ ?_
  · intro str hstr
    obtain rfl : str = ⟨[111, 107], by decide⟩ := by simpa using hstr
    exact ⟨0x70000, by decide, by decide, .inl (by decide)⟩
  · refine always_forced ⟨by decide, fun _ _ => by decide⟩ (fun _ => rfl) ?_
    refine always_forced ⟨by decide, fun _ _ => by decide⟩ (fun _ => rfl) ?_
    refine always_forced ⟨by decide, fun _ _ => by decide⟩ (fun _ => rfl) ?_
    exact always_stuck ⟨by decide, fun _ hchar => absurd hchar (by decide)⟩ (fun _ => rfl)

/-- A buffer at an address that reads as an error code is taken for none: nothing is written to it, no
terminator either, and the character is counted. -/
theorem error_code_buffer :
    ∃ s, doFmtConvert (fun _ => 7) 0xfffff800 none ⟨[97], by decide⟩ [] 16 = .ok (1, s) ∧
      s.mem = (fun _ => 7) ∧ s.mem (0xfffff800 + 1) ≠ 0 :=
  ⟨_, rfl, rfl, by decide⟩

end HeavenFox.Common
