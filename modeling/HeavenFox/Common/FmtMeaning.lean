/-
# HeavenFox.Common.FmtMeaning -- what a format is meant to say

A format is a sequence of pieces: text, a character, a signed number, a long number and a string.
`wanted` is what it is meant to say and `written` what `sprintk` makes of it.

The two part at every `%c`, to which a blank is added, and at every `%d` with a negative number,
which is taken for an unsigned one; so `sprintk_means_iff`: the buffer holds what is meant if and
only if the format has neither.
-/
import HeavenFox.Common.ApiNumber

namespace HeavenFox.Common

open HeavenFox.Logic

/-! ## Pieces -/

/-- Text without a terminator, a `%` and a `\001`. -/
abbrev PlainText := { s : List UInt8 // ∀ ch ∈ s, ch ≠ 0 ∧ ch ≠ 37 ∧ ch ≠ printLevelSoh }

/-- A piece of a format with its argument, which is the word that is passed for `%c` and `%d`. -/
inductive FmtPiece where
  | text (s : PlainText)
  | char (num : UInt32)
  | int (num : UInt32)
  | long (num : UInt64)
  | str (s : CString)

namespace FmtPiece

/-- How the piece is spelled: `%c`, `%d`, `%ld` and `%s`. -/
def spelled : FmtPiece → List UInt8
  | .text s => s.val
  | .char _ => [37, 99]
  | .int _ => [37, 100]
  | .long _ => [37, 108, 100]
  | .str _ => [37, 115]

def arg : FmtPiece → List FmtArg
  | .text _ => []
  | .char num => [.word num]
  | .int num => [.word num]
  | .long num => [.long num]
  | .str s => [.str s]

/-- The numeral of a signed number. -/
def signedDecimal (i : Int) : List UInt8 :=
  if i < 0 then 45 :: decimal i.natAbs else decimal i.natAbs

/-- What the piece is meant to say. -/
def wanted : FmtPiece → List UInt8
  | .text s => s.val
  | .char num => [num.toUInt8]
  | .int num => signedDecimal (asInt32 num.toNat)
  | .long num => decimal num.toNat
  | .str s => s.val

/-- What the loop writes for it. -/
def written : FmtPiece → List UInt8
  | .char num => [num.toUInt8 + 32]
  | .int num => decimal num.toNat
  | p => p.wanted

/-- Neither a character nor a negative number. -/
def Plain : FmtPiece → Prop
  | .char _ => False
  | .int num => num.toNat < 2 ^ 31
  | _ => True

instance : (p : FmtPiece) → Decidable p.Plain
  | .char _ => isFalse id
  | .int num => inferInstanceAs (Decidable (num.toNat < 2 ^ 31))
  | .text _ => isTrue trivial
  | .long _ => isTrue trivial
  | .str _ => isTrue trivial

theorem zero_not_mem_spelled (p : FmtPiece) : 0 ∉ p.spelled := by
  match p with
  | .text s => exact fun hmem => (s.property 0 hmem).1 rfl
  | .char _ => exact (by decide : (0 : UInt8) ∉ [37, 99])
  | .int _ => exact (by decide : (0 : UInt8) ∉ [37, 100])
  | .long _ => exact (by decide : (0 : UInt8) ∉ [37, 108, 100])
  | .str _ => exact (by decide : (0 : UInt8) ∉ [37, 115])

end FmtPiece

/-- The format that the pieces spell. -/
def formatOf (ps : List FmtPiece) : CString :=
  ⟨ps.flatMap FmtPiece.spelled, fun hmem =>
    have ⟨p, _, hp⟩ := List.mem_flatMap.mp hmem
    p.zero_not_mem_spelled hp⟩

def argsOf (ps : List FmtPiece) : List FmtArg := ps.flatMap FmtPiece.arg

def wantedOf (ps : List FmtPiece) : List UInt8 := ps.flatMap FmtPiece.wanted

def writtenOf (ps : List FmtPiece) : List UInt8 := ps.flatMap FmtPiece.written

/-! ## What the loop writes -/

section Rendering

variable {rest : List UInt8} {args args' : List FmtArg} {out : List UInt8}

theorem renderFrom_text {text : List UInt8} (h : ∀ ch ∈ text, ch ≠ 0 ∧ ch ≠ 37 ∧ ch ≠ printLevelSoh)
    (hrest : renderFrom rest 0 args = some (out, args')) :
    renderFrom (text ++ rest) 0 args = some (text ++ out, args') := by
  induction text with
  | nil => exact hrest
  | cons ch text ih =>
    obtain ⟨-, hpercent, hsoh⟩ := h ch List.mem_cons_self
    rw [List.cons_append, renderFrom, if_neg hsoh, if_pos hpercent,
      ih fun ch hch => h ch (List.mem_cons_of_mem _ hch)]
    rfl

/-- One piece in front of the others. -/
theorem renderFrom_piece (p : FmtPiece) (hrest : renderFrom rest 0 args = some (out, args')) :
    renderFrom (p.spelled ++ rest) 0 (p.arg ++ args) = some (p.written ++ out, args') := by
  match p with
  | .text s => exact renderFrom_text s.property hrest
  | .char num =>
    show Rendered.after [num.toUInt8 + 32] (renderFrom rest 0 args) = _
    rw [hrest]
    rfl
  | .int num =>
    show Rendered.after (decimal num.toNat) (renderFrom rest 0 args) = _
    rw [hrest]
    rfl
  | .long num =>
    show Rendered.after (decimal num.toNat) (renderFrom rest 0 args) = _
    rw [hrest]
    rfl
  | .str s =>
    show Rendered.after s.val (renderFrom rest 0 args) = _
    rw [hrest]
    rfl

end Rendering

/-- **The text of the pieces.** -/
theorem render_formatOf (ps : List FmtPiece) :
    render (formatOf ps) (argsOf ps) = some (writtenOf ps, []) := by
  show renderFrom (ps.flatMap FmtPiece.spelled) 0 (ps.flatMap FmtPiece.arg) =
    some (ps.flatMap FmtPiece.written, [])
  induction ps with
  | nil => rfl
  | cons p ps ih =>
    rw [List.flatMap_cons, List.flatMap_cons, List.flatMap_cons]
    exact renderFrom_piece p ih

/-! ## What is meant -/

theorem signedDecimal_of_lt {n : Nat} (h : n < 2 ^ 31) :
    FmtPiece.signedDecimal (asInt32 n) = decimal n := by
  rw [asInt32_of_lt h, FmtPiece.signedDecimal, if_neg (Int.not_lt.mpr (Int.natCast_nonneg n)),
    Int.natAbs_natCast]

/-- A negative number begins with a minus sign. -/
theorem signedDecimal_of_ge {n : Nat} (h : 2 ^ 31 ≤ n) (hn : n < 2 ^ 32) :
    FmtPiece.signedDecimal (asInt32 n) = 45 :: decimal (2 ^ 32 - n) := by
  have hneg : asInt32 n < 0 := (asInt32_neg_iff hn).mpr h
  have habs : (asInt32 n).natAbs = 2 ^ 32 - n := by
    rw [asInt32_of_ge h hn]
    omega
  rw [FmtPiece.signedDecimal, if_pos hneg, habs]

theorem FmtPiece.Plain.written_eq {p : FmtPiece} (h : p.Plain) : p.written = p.wanted := by
  match p with
  | .char _ => exact absurd h id
  | .int num => exact (signedDecimal_of_lt h).symm
  | .text _ => rfl
  | .long _ => rfl
  | .str _ => rfl

/-- What is written for a piece that is not plain begins with another character. -/
theorem FmtPiece.written_ne {p : FmtPiece} (h : ¬ p.Plain) (out out' : List UInt8) :
    p.written ++ out ≠ p.wanted ++ out' := by
  match p with
  | .char num =>
    intro heq
    have hhead : num.toUInt8 + 32 = num.toUInt8 := (List.cons.inj heq).1
    have hnum := congrArg UInt8.toNat hhead
    rw [UInt8.toNat_add, show (32 : UInt8).toNat = 32 from rfl] at hnum
    omega
  | .int num =>
    have hge : 2 ^ 31 ≤ num.toNat := Nat.le_of_not_lt h
    show decimal num.toNat ++ out ≠ signedDecimal (asInt32 num.toNat) ++ out'
    rw [signedDecimal_of_ge hge num.toNat_lt]
    obtain ⟨ch, digits, hdigits⟩ := List.exists_cons_of_ne_nil (decimal_ne_nil num.toNat)
    have hmem : ch ∈ decimal num.toNat := by
      rw [hdigits]
      exact List.mem_cons_self
    have hdigit := mem_decimal hmem
    rw [hdigits]
    intro heq
    have hhead : ch = 45 := (List.cons.inj heq).1
    rw [hhead] at hdigit
    exact absurd hdigit.1 (by decide)
  | .text _ => exact absurd trivial h
  | .long _ => exact absurd trivial h
  | .str _ => exact absurd trivial h

/-- **What is written is what is meant** if and only if every piece is plain: the first one that is
not begins with another character. -/
theorem writtenOf_eq_iff (ps : List FmtPiece) : writtenOf ps = wantedOf ps ↔ ∀ p ∈ ps, p.Plain := by
  induction ps with
  | nil => exact iff_of_true rfl fun _ hp => absurd hp List.not_mem_nil
  | cons p ps ih =>
    show p.written ++ writtenOf ps = p.wanted ++ wantedOf ps ↔ _
    rw [List.forall_mem_cons]
    by_cases hplain : p.Plain
    · rw [hplain.written_eq, List.append_cancel_left_eq, ih, and_iff_right hplain]
    · exact iff_of_false (FmtPiece.written_ne hplain _ _) fun h => hplain h.1

/-- `sprintk` leaves what is meant in the buffer, and a terminator behind it, and returns the number of
characters in front of that. -/
def SprintkMeans (m : Mem) (ptr : Nat) (ps : List FmtPiece) : Prop :=
  ∃ m', sprintk m ptr (formatOf ps) (argsOf ps) = .ok ((wantedOf ps).length, m') ∧
    BytesAt m' ptr (wantedOf ps ++ [0])

/-- **When a format says what it is meant to say**, in a buffer that what is written fits into. -/
theorem sprintk_means_iff (m : Mem) (ptr size : Nat) (ps : List FmtPiece)
    (hblock : ValidBlock ptr size) (hwritten : (writtenOf ps).length < size) :
    SprintkMeans m ptr ps ↔ ∀ p ∈ ps, p.Plain := by
  have hbelow := hblock.below
  have hresult : sprintk m ptr (formatOf ps) (argsOf ps) =
      .ok ((writtenOf ps).length, storeBytes m ptr (writtenOf ps ++ [0])) :=
    sprintk_eq (render_formatOf ps) ⟨hblock.valid, by omega⟩
  rw [← writtenOf_eq_iff]
  constructor
  · rintro ⟨m', hcall, hbytes⟩
    have hpair := Except.ok.inj (hresult.symm.trans hcall)
    have hlength : (writtenOf ps).length = (wantedOf ps).length := congrArg Prod.fst hpair
    have hmem : storeBytes m ptr (writtenOf ps ++ [0]) = m' := congrArg Prod.snd hpair
    rw [← hmem] at hbytes
    exact (bytesAt_append.mp (bytesAt_storeBytes m ptr _)).1.inj (bytesAt_append.mp hbytes).1 hlength
  · intro heq
    rw [heq] at hresult
    exact ⟨_, hresult, bytesAt_storeBytes m ptr _⟩

theorem okText_noZero : (0 : UInt8) ∉ [111, 107] := by decide

/-- `n=%d %s` with 4096 and `ok`. -/
def plainPieces : List FmtPiece :=
  [.text ⟨[110, 61], by simp [printLevelSoh]⟩, .int 4096, .text ⟨[32], by simp [printLevelSoh]⟩,
    .str ⟨[111, 107], okText_noZero⟩]

theorem sprintk_means_iff_plain :
    SprintkMeans (fun _ => 0) 0x8c000 plainPieces ↔ ∀ p ∈ plainPieces, p.Plain :=
  sprintk_means_iff (fun _ => 0) 0x8c000 64 plainPieces ⟨by decide, by decide⟩ (by decide +kernel)

/-- `%c` writes an `a` for an `A`, and `%d` writes 4294967295 for -1. -/
theorem char_and_sign_are_lost :
    ¬ SprintkMeans (fun _ => 0) 0x8c000 [.char 65] ∧
      ¬ SprintkMeans (fun _ => 0) 0x8c000 [.int 0xffffffff] ∧
      sprintk (fun _ => 0) 0x8c000 (formatOf [.char 65]) [.word 65] =
        .ok (1, storeBytes (fun _ => 0) 0x8c000 [97, 0]) ∧
      sprintk (fun _ => 0) 0x8c000 (formatOf [.int 0xffffffff]) [.word 0xffffffff] =
        .ok (10, storeBytes (fun _ => 0) 0x8c000 [52, 50, 57, 52, 57, 54, 55, 50, 57, 53, 0]) := by
  have hchar : sprintk (fun _ => 0) 0x8c000 (formatOf [.char 65]) [.word 65] =
      .ok (1, storeBytes (fun _ => 0) 0x8c000 [97, 0]) := by
    have hrender : render (formatOf [.char 65]) [.word 65] = some ([97], []) :=
      render_formatOf [.char 65]
    exact sprintk_eq hrender ⟨by decide, by decide⟩
  have hint : sprintk (fun _ => 0) 0x8c000 (formatOf [.int 0xffffffff]) [.word 0xffffffff] =
      .ok (10, storeBytes (fun _ => 0) 0x8c000 [52, 50, 57, 52, 57, 54, 55, 50, 57, 53, 0]) := by
    have hdigits : writtenOf [.int 0xffffffff] = [52, 50, 57, 52, 57, 54, 55, 50, 57, 53] := by
      decide +kernel
    have hblock : ValidBlock 0x8c000 11 := ⟨by decide, by decide⟩
    exact sprintk_eq (hdigits ▸ render_formatOf [.int 0xffffffff]) hblock
  refine ⟨?_, ?_, hchar, hint⟩
  · rintro ⟨m', hcall, hbytes⟩
    have hmem : storeBytes (fun _ => 0) 0x8c000 [97, 0] = m' :=
      congrArg Prod.snd (Except.ok.inj (hchar.symm.trans hcall))
    have hfirst : m' 0x8c000 = 65 := hbytes.1
    rw [← hmem] at hfirst
    exact absurd hfirst (by decide)
  · rintro ⟨m', hcall, hbytes⟩
    have hmem : storeBytes (fun _ => 0) 0x8c000 [52, 50, 57, 52, 57, 54, 55, 50, 57, 53, 0] = m' :=
      congrArg Prod.snd (Except.ok.inj (hint.symm.trans hcall))
    have hfirst : m' 0x8c000 = 45 := hbytes.1
    rw [← hmem] at hfirst
    exact absurd hfirst (by decide)

end HeavenFox.Common
