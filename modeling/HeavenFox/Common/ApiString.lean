/-
# HeavenFox.Common.ApiString -- bounded copies and the formatter of `api_string.c`

`do_fmt_convert` walks a format string once.  With a null buffer it counts the
characters; with a buffer it writes them as well.  `vasprintk` calls it in the one mode
to learn how large a block it has to allocate, and in the other to fill the block.

`render` says what a format and its arguments stand for.  `fmtLoop_spec` is the one
lemma about the walk: as long as the text fits, the counter and the cursor move on by
its length, the arguments it does not need are left over, and the text lies in the
buffer.  Both modes are instances of it, so they agree (`format_passes_agree`).
-/
import HeavenFox.Common.ErrorTypes
import HeavenFox.Logic.Bytes
import Mathlib.Data.Nat.Digits.Defs

namespace HeavenFox.Common

open HeavenFox.Logic

/-! ## Strings -/

/-- The characters of a NUL-terminated string. -/
abbrev CString := { s : List UInt8 // 0 ∉ s }

/-- `get_string_lenth`. -/
def getStringLenth (src : CString) : Nat := src.val.length % 2 ^ 32

/-- `do_string_split`: the terminator is not copied. -/
def doStringSplit (m : Mem) (ptrDst offset : Nat) (src : CString) : Mem :=
  storeBytes m (add32 ptrDst offset) src.val

/-- The loop of `do_string_n_copy_safe`.  The terminator is only written where `size` runs out. -/
def copySafeLoop : List UInt8 → Nat → Mem → Nat → Mem
  | [], _, m, _ => m
  | _ :: _, 0, m, _ => m
  | ch :: src, size + 1, m, ptrBuf =>
    if size ≠ 0 then copySafeLoop src size (store8 m ptrBuf ch) (ptrBuf + 1)
    else store8 m ptrBuf 0

/-- `do_string_n_copy_safe`, which is `kstrlcpy`. -/
def doStringNCopySafe (m : Mem) (ptrDst : Nat) (src : CString) (size : Nat) : Nat × Mem :=
  (getStringLenth src, copySafeLoop src.val size m ptrDst)

/-- `!strcmp(s1, s2)`, for a string in memory and one given by its characters. -/
def strEqualAt (m : Mem) : Nat → List UInt8 → Bool
  | a, [] => decide (m a = 0)
  | a, ch :: s => decide (m a = ch) && strEqualAt m (a + 1) s

/-! ## Numbers -/

/-- The loop of `do_string_reverse`. -/
def reverseLoop : Nat → Mem → Nat → Nat → Mem
  | 0, m, _, _ => m
  | rounds + 1, m, ptrHead, ptrTail =>
    if ptrTail > ptrHead then
      let ch := m ptrHead
      let m := store8 m ptrHead (m ptrTail)
      let m := store8 m ptrTail ch
      reverseLoop rounds m (ptrHead + 1) (ptrTail - 1)
    else m

/-- `do_string_reverse` with its length given. -/
def doStringReverse (m : Mem) (ptrSrc size : Nat) : Mem :=
  if size ≤ 1 then m else reverseLoop size m ptrSrc (ptrSrc + size - 1)

/-- The loop of `convert_number_to_string`: the digits, the last one first.  A 64-bit number has at
most twenty. -/
def convertLoop (write : Bool) : Nat → UInt64 → UInt64 → Nat → Nat → Mem → Nat × Mem
  | 0, _, _, _, lenth, m => (lenth, m)
  | rounds + 1, num, value, ptrBuf, lenth, m =>
    let num := num / 10
    let lenth := add32 lenth 1
    let digit := (value - ((num <<< 1) + (num <<< 3))).toUInt8 + 48
    let m := if write then store8 m ptrBuf digit else m
    let value := if write then value / 10 else value
    if num ≠ 0 then convertLoop write rounds num value (ptrBuf + 1) lenth m else (lenth, m)

/-- `convert_number_to_string`. -/
def convertNumberToString (m : Mem) (ptrDst : Nat) (value : UInt64) : Nat × Mem :=
  let (lenth, m) := convertLoop (isValid ptrDst) 20 value value ptrDst 0 m
  (lenth, if isValid ptrDst then doStringReverse m ptrDst lenth else m)

/-! ## Formats -/

/-- A variable argument: a 32-bit word, a 64-bit word, or a string. -/
inductive FmtArg where
  | word (value : UInt32)
  | long (value : UInt64)
  | str (s : CString)
  deriving DecidableEq

/-- The variables of `do_fmt_convert`, the rest of `ptr_list`, and what `ptr_level` points at. -/
structure FmtState where
  mem : Mem
  data : Nat
  lenth : Nat
  args : List FmtArg
  level : Option (UInt8 × UInt8)

/-- `PRINT_LEVEL_SOH`. -/
def printLevelSoh : UInt8 := 1

namespace FmtState

/-- Write one character, if there is a buffer, and count it. -/
def putChar (s : FmtState) (ptrBuf : Nat) (ch : UInt8) : FmtState :=
  { s with
    mem := if isValid ptrBuf then store8 s.mem s.data ch else s.mem
    data := if isValid ptrBuf then s.data + 1 else s.data
    lenth := add32 s.lenth 1 }

/-- The `case 'c'`: a blank is added to the character. -/
def convertChar (s : FmtState) (ptrBuf size : Nat) : Except Stop FmtState :=
  match s.args with
  | .word num :: args =>
    let s := { s with args }
    if add32 s.lenth 1 > size then .ok s else .ok (s.putChar ptrBuf (num.toUInt8 + 32))
  | _ => .error .fault

/-- The `case 'd'`.  Whether there is a buffer is left to `convert_number_to_string`. -/
def convertInt (s : FmtState) (ptrBuf size : Nat) : Except Stop FmtState :=
  match s.args with
  | .word num :: args =>
    let s := { s with args }
    let count := (convertNumberToString s.mem 0 num.toUInt64).1
    if add32 s.lenth count > size then .ok s
    else
      .ok { s with
        mem := (convertNumberToString s.mem s.data num.toUInt64).2
        data := if isValid ptrBuf then s.data + count else s.data
        lenth := add32 s.lenth count }
  | _ => .error .fault

/-- The `case 'l'` before a `d`; the flag says that there was room. -/
def convertLong (s : FmtState) (ptrBuf size : Nat) : Except Stop (Bool × FmtState) :=
  match s.args with
  | .long num :: args =>
    let s := { s with args }
    let count := (convertNumberToString s.mem 0 num).1
    if add32 s.lenth count > size then .ok (false, s)
    else
      .ok (true, { s with
        mem := if isValid ptrBuf then (convertNumberToString s.mem s.data num).2 else s.mem
        data := if isValid ptrBuf then s.data + count else s.data
        lenth := add32 s.lenth count })
  | _ => .error .fault

/-- The `case 's'`. -/
def convertStr (s : FmtState) (ptrBuf size : Nat) : Except Stop FmtState :=
  match s.args with
  | .str str :: args =>
    let s := { s with args }
    let count := getStringLenth str
    if add32 s.lenth count > size then .ok s
    else
      .ok { s with
        mem := if isValid ptrBuf then doStringSplit s.mem s.data 0 str else s.mem
        data := if isValid ptrBuf then s.data + count else s.data
        lenth := add32 s.lenth count }
  | _ => .error .fault

/-- The `switch` for the character `conv` behind a `%`, with `next` behind that: how many characters
the loop goes on by, and the state.  An unknown conversion is looked at again as text, and so is an
`l` without its `d`.  `%x`, `%p` and `%b` read a counter that `dec_to_hex` and `dec_to_binary` never
initialise. -/
def conversion (s : FmtState) (ptrBuf size : Nat) (conv next : UInt8) :
    Except Stop (Nat × FmtState) :=
  if conv = 99 then do
    let s ← s.convertChar ptrBuf size
    pure (1, s)
  else if conv = 100 then do
    let s ← s.convertInt ptrBuf size
    pure (1, s)
  else if conv = 108 ∧ next = 100 then do
    let (room, s) ← s.convertLong ptrBuf size
    pure (if room then 2 else 1, s)
  else if conv = 115 then do
    let s ← s.convertStr ptrBuf size
    pure (1, s)
  else if conv = 120 ∨ conv = 112 ∨ conv = 98 then .error .fault
  else if add32 s.lenth 1 > size then .ok (1, s)
  else .ok (0, s.putChar ptrBuf 37)

end FmtState

/-- The loop of `do_fmt_convert` on the rest of the format.  The second argument counts the characters
that `i` has gone on by already; where it goes beyond the terminator, the loop reads what is no
part of the string. -/
def fmtLoop (ptrBuf size : Nat) : List UInt8 → Nat → FmtState → Except Stop FmtState
  | [], 0, s => .ok s
  | [], _ + 1, _ => .error .fault
  | _ :: rest, i + 1, s => fmtLoop ptrBuf size rest i s
  | ch :: rest, 0, s =>
    if ch = printLevelSoh then
      fmtLoop ptrBuf size rest 1
        { s with level := s.level.map fun _ => (printLevelSoh, rest.headD 0) }
    else if ch ≠ 37 then
      if add32 s.lenth 1 > size then .ok s else fmtLoop ptrBuf size rest 0 (s.putChar ptrBuf ch)
    else do
      let (i, s) ← s.conversion ptrBuf size (rest.headD 0) (rest.tail.headD 0)
      fmtLoop ptrBuf size rest i s

/-- `do_fmt_convert`. -/
def doFmtConvert (m : Mem) (ptrBuf : Nat) (level : Option (UInt8 × UInt8)) (fmt : CString)
    (args : List FmtArg) (size : Nat) : Except Stop (Nat × FmtState) :=
  if size < 1 then .ok (0, ⟨m, ptrBuf, 0, args, level⟩)
  else do
    let s ← fmtLoop ptrBuf (size - 1) fmt.val 0 ⟨m, ptrBuf, 0, args, level⟩
    let s := if isValid ptrBuf then { s with mem := store8 s.mem s.data 0 } else s
    pure (s.lenth, s)

/-- `lv_vasprintk`: the pointer, and the state after the second pass.  `kmalloc` says what is returned
for a block of a given size. -/
def lvVasprintk (kmalloc : Nat → Nat) (m : Mem) (fmt : Option CString)
    (level : Option (UInt8 × UInt8)) (args : List FmtArg) : Except Stop (Nat × Option FmtState) :=
  match fmt with
  | none => .ok (0, none)
  | some fmt => do
    let (size, _) ← doFmtConvert m 0 none fmt args (2 ^ 32 - 1)
    let ptr := kmalloc (add32 size 1)
    if isValid ptr = false then pure (0, none)
    else
      let (_, s) ← doFmtConvert m ptr level fmt args (add32 size 1)
      pure (ptr, some s)

/-- `vasprintk`. -/
def vasprintk (kmalloc : Nat → Nat) (m : Mem) (fmt : Option CString) (args : List FmtArg) :
    Except Stop (Nat × Option FmtState) :=
  lvVasprintk kmalloc m fmt none args

/-- `sprintk`. -/
def sprintk (m : Mem) (ptrBuf : Nat) (fmt : CString) (args : List FmtArg) :
    Except Stop (Nat × Mem) := do
  let (size, s) ← doFmtConvert m ptrBuf none fmt args (2 ^ 32 - 1)
  pure (size, s.mem)

/-! ## What a number looks like -/

/-- The decimal digits of a number, the last one first. -/
def digitsLow (n : Nat) : List UInt8 :=
  (if n = 0 then [0] else Nat.digits 10 n).map fun d => UInt8.ofNat (d + 48)

/-- The decimal digits of a number. -/
def decimal (n : Nat) : List UInt8 := (digitsLow n).reverse

theorem digitsLow_eq (n : Nat) :
    digitsLow n = UInt8.ofNat (n % 10 + 48) :: if n / 10 = 0 then [] else digitsLow (n / 10) := by
  unfold digitsLow
  by_cases hn : n = 0
  · subst hn
    rfl
  · rw [if_neg hn, Nat.digits_def' (by decide) (Nat.pos_of_ne_zero hn), List.map_cons]
    by_cases hd : n / 10 = 0
    · rw [hd, if_pos rfl, Nat.digits_zero, List.map_nil]
    · rw [if_neg hd, if_neg hd]

theorem digitsLow_length_le {n k : Nat} (h : n < 10 ^ (k + 1)) : (digitsLow n).length ≤ k + 1 := by
  induction k generalizing n with
  | zero =>
    have hd : n / 10 = 0 := by omega
    rw [digitsLow_eq, if_pos hd]
    simp
  | succ k ih =>
    rw [digitsLow_eq]
    split
    · simp
    · have hlt : n / 10 < 10 ^ (k + 1) := by
        rw [Nat.div_lt_iff_lt_mul (by decide), ← Nat.pow_succ]
        exact h
      simpa using ih hlt

theorem decimal_length (n : Nat) : (decimal n).length = (digitsLow n).length :=
  List.length_reverse

/-! ## Numbers in memory -/

section Numbers

variable {m : Mem} {num value : UInt64} {ptrBuf lenth rounds : Nat}

/-- The digit that one round writes: the shifts multiply by ten. -/
theorem digit_eq (h : num = value / 10) :
    (value - ((num <<< 1) + (num <<< 3))).toUInt8 + 48 = UInt8.ofNat (value.toNat % 10 + 48) := by
  have hlt := value.toNat_lt
  have hnum : num.toNat = value.toNat / 10 := by
    rw [h, UInt64.toNat_div]
    rfl
  have hten : ((num <<< 1) + (num <<< 3)).toNat = value.toNat / 10 * 10 := by
    have hone : 2 ^ (1 % 64) = 2 := rfl
    have hthree : 2 ^ (3 % 64) = 8 := rfl
    simp only [UInt64.toNat_add, UInt64.toNat_shiftLeft, hnum, Nat.shiftLeft_eq,
      UInt64.reduceToNat, hone, hthree]
    omega
  have hle : (num <<< 1) + (num <<< 3) ≤ value := by
    rw [UInt64.le_iff_toNat_le, hten]
    omega
  apply UInt8.toNat_inj.mp
  rw [UInt8.toNat_add, UInt64.toNat_toUInt8, UInt64.toNat_sub_of_le _ _ hle, hten]
  simp only [UInt8.toNat_ofNat', UInt8.reduceToNat]
  omega

/-- The quotient of one round is zero, or there is a round left for it. -/
theorem div_ten_cases (h : num.toNat < 10 ^ (rounds + 1)) :
    (num / 10 = 0 ∧ num.toNat / 10 = 0) ∨
      (num / 10 ≠ 0 ∧ num.toNat / 10 ≠ 0 ∧ (num / 10).toNat = num.toNat / 10 ∧ 0 < rounds ∧
        (num / 10).toNat < 10 ^ rounds) := by
  have hdiv : (num / 10).toNat = num.toNat / 10 := by
    rw [UInt64.toNat_div]
    rfl
  by_cases hnext : num / 10 = 0
  · left
    refine ⟨hnext, ?_⟩
    rw [← hdiv, hnext]
    rfl
  · right
    have hmore : num.toNat / 10 ≠ 0 := by
      rw [← hdiv]
      exact fun heq => hnext (UInt64.toNat_inj.mp heq)
    have hlt : (num / 10).toNat < 10 ^ rounds := by
      rw [hdiv, Nat.div_lt_iff_lt_mul (by decide), ← Nat.pow_succ]
      exact h
    refine ⟨hnext, hmore, hdiv, ?_, hlt⟩
    rcases Nat.eq_zero_or_pos rounds with rfl | hpos
    · omega
    · exact hpos

/-- Counting only: the loop goes on until the number is used up. -/
theorem convertLoop_count (h : num.toNat < 10 ^ rounds) (hpos : 0 < rounds)
    (hroom : lenth + rounds < 2 ^ 32) :
    convertLoop false rounds num value ptrBuf lenth m =
      (lenth + (digitsLow num.toNat).length, m) := by
  induction rounds generalizing num value ptrBuf lenth with
  | zero => exact absurd hpos (Nat.lt_irrefl 0)
  | succ rounds ih =>
    rw [convertLoop, digitsLow_eq, add32_of_lt (by omega)]
    rcases div_ten_cases h with ⟨hnext, hzero⟩ | ⟨hnext, hmore, hdiv, hrounds, hlt⟩
    · rw [if_pos hzero]
      simp [hnext]
    · rw [if_neg hmore]
      simp only [ne_eq, hnext, not_false_eq_true, if_true, Bool.false_eq_true, if_false]
      rw [ih hlt hrounds (by omega), hdiv, List.length_cons]
      congr 1
      omega

/-- Writing: the digits lie in the buffer, the last one first. -/
theorem convertLoop_write (h : value.toNat < 10 ^ rounds) (hpos : 0 < rounds)
    (hroom : lenth + rounds < 2 ^ 32) :
    convertLoop true rounds value value ptrBuf lenth m =
      (lenth + (digitsLow value.toNat).length, storeBytes m ptrBuf (digitsLow value.toNat)) := by
  induction rounds generalizing value ptrBuf lenth m with
  | zero => exact absurd hpos (Nat.lt_irrefl 0)
  | succ rounds ih =>
    rw [convertLoop, digitsLow_eq, add32_of_lt (by omega)]
    simp only [if_true, digit_eq rfl]
    rcases div_ten_cases h with ⟨hnext, hzero⟩ | ⟨hnext, hmore, hdiv, hrounds, hlt⟩
    · rw [if_pos hzero]
      simp [hnext, storeBytes]
    · rw [if_neg hmore]
      simp only [ne_eq, hnext, not_false_eq_true, if_true]
      rw [ih hlt hrounds (by omega), hdiv, List.length_cons, storeBytes]
      congr 1
      omega

/-- **`do_string_reverse`** on the bytes between its two pointers: the outer two are exchanged, and
the loop goes on with those between them. -/
theorem reverseLoop_spec {m : Mem} {p rounds : Nat} {l : List UInt8} (h : BytesAt m p l)
    (hpos : 0 < p) (hlen : l.length ≤ rounds) :
    BytesAt (reverseLoop rounds m p (p + l.length - 1)) p l.reverse ∧
      ∀ x, x < p ∨ p + l.length ≤ x → reverseLoop rounds m p (p + l.length - 1) x = m x := by
  induction l using List.bidirectionalRec generalizing m p rounds with
  | nil =>
    have hstop : reverseLoop rounds m p (p + ([] : List UInt8).length - 1) = m := by
      cases rounds with
      | zero => rfl
      | succ rounds => rw [reverseLoop, if_neg (by simp)]
    rw [hstop]
    exact ⟨trivial, fun _ _ => rfl⟩
  | singleton ch =>
    have hstop : reverseLoop rounds m p (p + [ch].length - 1) = m := by
      cases rounds with
      | zero => rfl
      | succ rounds => rw [reverseLoop, if_neg (by simp)]
    rw [hstop]
    exact ⟨h, fun _ _ => rfl⟩
  | cons_append a l b ih =>
    obtain ⟨rounds, rfl⟩ : ∃ r, rounds = r + 1 := ⟨rounds - 1, by simp at hlen; omega⟩
    have hlength : (a :: (l ++ [b])).length = l.length + 2 := by simp
    rw [hlength] at hlen ⊢
    obtain ⟨ha, hmid⟩ := h
    obtain ⟨hl, hb⟩ := bytesAt_snoc.mp hmid
    have htail : p + (l.length + 2) - 1 = p + 1 + l.length := by omega
    rw [htail, reverseLoop, if_pos (by omega), ha, hb]
    dsimp only
    -- the memory after the exchange
    generalize hswap : store8 (store8 m p b) (p + 1 + l.length) a = m'
    have hagree : ∀ x, x ≠ p → x ≠ p + 1 + l.length → m' x = m x := by
      intro x hx hx'
      rw [← hswap, store8_of_ne hx', store8_of_ne hx]
    have hfirst : m' p = b := by
      rw [← hswap, store8_of_ne (by omega)]
      exact if_pos rfl
    have hlast : m' (p + 1 + l.length) = a := by
      rw [← hswap]
      exact if_pos rfl
    have hl' : BytesAt m' (p + 1) l :=
      hl.congr fun x hx hx' => hagree x (by omega) (by omega)
    obtain ⟨hrev, hout⟩ := ih hl' (Nat.succ_pos p) (show l.length ≤ rounds by omega)
    rw [List.reverse_cons, List.reverse_append, List.reverse_singleton, List.singleton_append,
      List.cons_append]
    refine ⟨⟨?_, ?_⟩, fun x hx => ?_⟩
    · rw [hout p (by omega), hfirst]
    · rw [bytesAt_snoc, List.length_reverse]
      exact ⟨hrev, by rw [hout _ (by omega), hlast]⟩
    · rw [hout x (by omega), hagree x (by omega) (by omega)]

theorem doStringReverse_eq {m : Mem} {p : Nat} {l : List UInt8} (hpos : 0 < p) :
    doStringReverse (storeBytes m p l) p l.length = storeBytes m p l.reverse := by
  have hbytes := bytesAt_storeBytes m p l
  unfold doStringReverse
  split
  · rename_i hshort
    match l, hshort with
    | [], _ => rfl
    | [ch], _ => rfl
  · obtain ⟨hrev, hout⟩ := reverseLoop_spec hbytes hpos (Nat.le_refl l.length)
    apply eq_storeBytes hrev
    intro x hx
    rw [List.length_reverse] at hx
    rw [hout x hx, storeBytes_of_outside hx]

/-- **`convert_number_to_string`** returns the number of digits and, given a buffer, writes them. -/
theorem convertNumberToString_eq (m : Mem) (p : Nat) (value : UInt64) :
    convertNumberToString m p value =
      ((decimal value.toNat).length,
        if isValid p then storeBytes m p (decimal value.toNat) else m) := by
  have hlt : value.toNat < 10 ^ 20 := by
    have := value.toNat_lt
    omega
  rw [decimal_length]
  unfold convertNumberToString
  cases hp : isValid p with
  | false =>
    rw [convertLoop_count hlt (by decide) (by decide)]
    simp
  | true =>
    rw [convertLoop_write hlt (by decide) (by decide)]
    simp only [if_true, Nat.zero_add]
    rw [doStringReverse_eq (isValid_iff.mp hp).1, decimal]

end Numbers

/-! ## What a format stands for -/

/-- Put some text in front. -/
def Rendered.after (text : List UInt8) (r : Option (List UInt8 × List FmtArg)) :
    Option (List UInt8 × List FmtArg) :=
  r.map fun r => (text ++ r.1, r.2)

/-- What a conversion stands for: how many characters it takes behind the `%`, its text, and the
arguments that are left over.  An unknown conversion stands for its `%` alone. -/
def convText (conv next : UInt8) (args : List FmtArg) : Option (Nat × List UInt8 × List FmtArg) :=
  if conv = 99 then
    match args with
    | .word num :: args => some (1, [num.toUInt8 + 32], args)
    | _ => none
  else if conv = 100 then
    match args with
    | .word num :: args => some (1, decimal num.toNat, args)
    | _ => none
  else if conv = 108 ∧ next = 100 then
    match args with
    | .long num :: args => some (2, decimal num.toNat, args)
    | _ => none
  else if conv = 115 then
    match args with
    | .str str :: args => some (1, str.val, args)
    | _ => none
  else if conv = 120 ∨ conv = 112 ∨ conv = 98 then none
  else some (0, [37], args)

/-- The text of the rest of a format, of which `i` characters are not looked at. -/
def renderFrom : List UInt8 → Nat → List FmtArg → Option (List UInt8 × List FmtArg)
  | [], 0, args => some ([], args)
  | [], _ + 1, _ => none
  | _ :: rest, i + 1, args => renderFrom rest i args
  | ch :: rest, 0, args =>
    if ch = printLevelSoh then renderFrom rest 1 args
    else if ch ≠ 37 then Rendered.after [ch] (renderFrom rest 0 args)
    else
      match convText (rest.headD 0) (rest.tail.headD 0) args with
      | none => none
      | some (i, text, args) => Rendered.after text (renderFrom rest i args)

/-- **The text of a format**, and the arguments that are left over.  There is none where the
arguments do not match, for `%x`, `%p` and `%b`, and where a `\001` comes last. -/
def render (fmt : CString) (args : List FmtArg) : Option (List UInt8 × List FmtArg) :=
  renderFrom fmt.val 0 args

theorem Rendered.after_eq_some {text out : List UInt8} {rest : List FmtArg}
    {r : Option (List UInt8 × List FmtArg)} (h : Rendered.after text r = some (out, rest)) :
    ∃ out', r = some (out', rest) ∧ out = text ++ out' := by
  obtain ⟨⟨out', rest'⟩, hr, heq⟩ := Option.map_eq_some_iff.mp h
  cases heq
  exact ⟨out', hr, rfl⟩

/-! ## What a pass leaves -/

/-- The state after some text: counted, and written if there is a buffer. -/
def FmtState.emit (s : FmtState) (ptrBuf : Nat) (text : List UInt8) : FmtState :=
  { s with
    mem := if isValid ptrBuf then storeBytes s.mem s.data text else s.mem
    data := if isValid ptrBuf then s.data + text.length else s.data
    lenth := s.lenth + text.length }

/-- There is room for `n` more characters: up to the size and, if there is a buffer, behind the
cursor. -/
structure FmtState.Room (s : FmtState) (ptrBuf size n : Nat) : Prop where
  counted : s.lenth + n ≤ size
  small : size < 2 ^ 32
  cursor : if isValid ptrBuf then 0 < s.data ∧ s.data + n < 0xfffff000 else s.data = ptrBuf

section Passes

variable {s : FmtState} {ptrBuf size n : Nat} {text text' out : List UInt8} {args rest : List FmtArg}
  {ch : UInt8} {fmt : List UInt8}

@[simp] theorem emit_args : (s.emit ptrBuf text).args = s.args := rfl

@[simp] theorem emit_level : (s.emit ptrBuf text).level = s.level := rfl

theorem emit_count (h : isValid ptrBuf = false) :
    s.emit ptrBuf text = { s with lenth := s.lenth + text.length } := by
  unfold FmtState.emit
  rw [h]
  rfl

theorem emit_write (h : isValid ptrBuf = true) :
    s.emit ptrBuf text = { s with
      mem := storeBytes s.mem s.data text
      data := s.data + text.length
      lenth := s.lenth + text.length } := by
  unfold FmtState.emit
  rw [h]
  rfl

theorem emit_nil : s.emit ptrBuf [] = s := by
  unfold FmtState.emit
  cases isValid ptrBuf <;> rfl

theorem emit_emit : (s.emit ptrBuf text).emit ptrBuf text' = s.emit ptrBuf (text ++ text') := by
  unfold FmtState.emit
  cases isValid ptrBuf with
  | false => simp [Nat.add_assoc]
  | true => simp [Nat.add_assoc, storeBytes_append]

theorem FmtState.Room.emit (h : s.Room ptrBuf size (text ++ out).length) :
    (s.emit ptrBuf text).Room ptrBuf size out.length := by
  have hlen : (text ++ out).length = text.length + out.length := List.length_append
  obtain ⟨hcounted, hsmall, hcursor⟩ := h
  rw [hlen] at hcounted hcursor
  refine ⟨?_, hsmall, ?_⟩
  · show s.lenth + text.length + out.length ≤ size
    omega
  · unfold FmtState.emit
    cases hp : isValid ptrBuf with
    | false =>
      rw [hp] at hcursor
      exact hcursor
    | true =>
      rw [hp] at hcursor
      simp only [if_true] at hcursor ⊢
      omega

/-- There is room for the text in front. -/
theorem FmtState.Room.fits (h : s.Room ptrBuf size (text ++ out).length) :
    add32 s.lenth text.length = s.lenth + text.length ∧ ¬ s.lenth + text.length > size := by
  have hlen : (text ++ out).length = text.length + out.length := List.length_append
  obtain ⟨hcounted, hsmall, -⟩ := h
  rw [hlen] at hcounted
  exact ⟨add32_of_lt (by omega), by omega⟩

theorem putChar_eq (h : s.Room ptrBuf size (ch :: out).length) :
    s.putChar ptrBuf ch = s.emit ptrBuf [ch] ∧ ¬ add32 s.lenth 1 > size := by
  have h' : s.Room ptrBuf size ([ch] ++ out).length := h
  obtain ⟨hadd, hfit⟩ := h'.fits
  rw [List.length_singleton] at hadd hfit
  rw [hadd]
  refine ⟨?_, hfit⟩
  unfold FmtState.putChar FmtState.emit
  rw [hadd]
  cases isValid ptrBuf <;> rfl

/-- The number that has been converted lies in the buffer. -/
theorem convertNumber_emit {value : UInt64} (htext : text = decimal value.toNat)
    (h : s.Room ptrBuf size (text ++ out).length) :
    (convertNumberToString s.mem s.data value).2 =
      if isValid ptrBuf then storeBytes s.mem s.data text else s.mem := by
  rw [convertNumberToString_eq, ← htext]
  have hcursor := h.cursor
  cases hp : isValid ptrBuf with
  | false =>
    rw [hp] at hcursor
    have hdata : s.data = ptrBuf := hcursor
    rw [hdata, hp]
  | true =>
    rw [hp] at hcursor
    simp only [if_true, List.length_append] at hcursor
    have hvalid : isValid s.data = true := isValid_iff.mpr ⟨hcursor.1, by omega⟩
    rw [hvalid]

theorem FmtState.Room.withArgs (h : s.Room ptrBuf size n) (args : List FmtArg)
    (level : Option (UInt8 × UInt8)) : ({ s with args, level } : FmtState).Room ptrBuf size n :=
  ⟨h.counted, h.small, h.cursor⟩

theorem convertChar_eq {num : UInt32} (hargs : s.args = .word num :: args)
    (h : s.Room ptrBuf size ([num.toUInt8 + 32] ++ out).length) :
    s.convertChar ptrBuf size = .ok ({ s with args }.emit ptrBuf [num.toUInt8 + 32]) := by
  obtain ⟨hput, hfit⟩ := putChar_eq (h.withArgs args s.level)
  unfold FmtState.convertChar
  rw [hargs]
  dsimp only
  rw [if_neg hfit, hput]

theorem convertInt_eq {num : UInt32} (hargs : s.args = .word num :: args)
    (h : s.Room ptrBuf size (decimal num.toNat ++ out).length) :
    s.convertInt ptrBuf size = .ok ({ s with args }.emit ptrBuf (decimal num.toNat)) := by
  have hnum : num.toUInt64.toNat = num.toNat := UInt32.toNat_toUInt64 num
  obtain ⟨hadd, hfit⟩ := h.fits
  have htext : decimal num.toNat = decimal num.toUInt64.toNat := by rw [hnum]
  have hmem := convertNumber_emit htext h
  unfold FmtState.convertInt
  rw [hargs]
  dsimp only
  rw [hmem, convertNumberToString_eq, hnum, hadd, if_neg hfit]
  rfl

theorem convertLong_eq {num : UInt64} (hargs : s.args = .long num :: args)
    (h : s.Room ptrBuf size (decimal num.toNat ++ out).length) :
    s.convertLong ptrBuf size = .ok (true, { s with args }.emit ptrBuf (decimal num.toNat)) := by
  obtain ⟨hadd, hfit⟩ := h.fits
  have hmem := convertNumber_emit rfl h
  unfold FmtState.convertLong
  rw [hargs]
  dsimp only
  rw [hmem, convertNumberToString_eq, hadd, if_neg hfit]
  unfold FmtState.emit
  cases isValid ptrBuf <;> rfl

theorem convertStr_eq {str : CString} (hargs : s.args = .str str :: args)
    (h : s.Room ptrBuf size (str.val ++ out).length) :
    s.convertStr ptrBuf size = .ok ({ s with args }.emit ptrBuf str.val) := by
  obtain ⟨hadd, hfit⟩ := h.fits
  have hsmall := h.small
  have hlen : getStringLenth str = str.val.length := Nat.mod_eq_of_lt (by omega)
  have hsplit : (if isValid ptrBuf then doStringSplit s.mem s.data 0 str else s.mem) =
      if isValid ptrBuf then storeBytes s.mem s.data str.val else s.mem := by
    have hcursor := h.cursor
    cases hp : isValid ptrBuf with
    | false => rfl
    | true =>
      rw [hp] at hcursor
      simp only [if_true] at hcursor ⊢
      rw [doStringSplit, add32_of_lt (by omega), Nat.add_zero]
  unfold FmtState.convertStr
  rw [hargs]
  dsimp only
  rw [hlen, hadd, if_neg hfit, hsplit]
  rfl

/-- **One conversion** emits its text and goes on behind it. -/
theorem conversion_eq {conv next : UInt8} {i : Nat}
    (h : convText conv next s.args = some (i, text, args))
    (hroom : s.Room ptrBuf size (text ++ out).length) :
    s.conversion ptrBuf size conv next = .ok (i, { s with args }.emit ptrBuf text) := by
  unfold convText at h
  unfold FmtState.conversion
  split at h
  · rename_i hconv
    split at h
    · cases h
      rw [if_pos hconv, convertChar_eq ‹_› hroom]
      rfl
    · cases h
  rename_i hchar
  rw [if_neg hchar]
  split at h
  · rename_i hconv
    split at h
    · cases h
      rw [if_pos hconv, convertInt_eq ‹_› hroom]
      rfl
    · cases h
  rename_i hint
  rw [if_neg hint]
  split at h
  · rename_i hconv
    split at h
    · cases h
      rw [if_pos hconv, convertLong_eq ‹_› hroom]
      rfl
    · cases h
  rename_i hlong
  rw [if_neg hlong]
  split at h
  · rename_i hconv
    split at h
    · cases h
      rw [if_pos hconv, convertStr_eq ‹_› hroom]
      rfl
    · cases h
  rename_i hstr
  rw [if_neg hstr]
  split at h
  · cases h
  · rename_i hknown
    cases h
    obtain ⟨hput, hfit⟩ := putChar_eq hroom
    rw [if_neg hknown, if_neg hfit, hput]

/-- **One pass over a format** emits its text.  By induction on the format: each round of the loop
emits what the same round of `renderFrom` puts in front. -/
theorem fmtLoop_spec {i : Nat} (h : renderFrom fmt i s.args = some (out, rest))
    (hroom : s.Room ptrBuf size out.length) :
    ∃ level, fmtLoop ptrBuf size fmt i s = .ok { s.emit ptrBuf out with args := rest, level } ∧
      (s.level = none → level = none) := by
  induction fmt generalizing i s out with
  | nil =>
    cases i with
    | zero =>
      cases h
      exact ⟨s.level, by rw [fmtLoop, emit_nil], id⟩
    | succ i => cases h
  | cons ch fmt ih =>
    cases i with
    | succ i => exact ih h hroom
    | zero =>
      rw [renderFrom] at h
      rw [fmtLoop]
      split at h
      · rename_i hsoh
        rw [if_pos hsoh]
        obtain ⟨level, hloop, hnone⟩ := ih (s := { s with
          level := s.level.map fun _ => (printLevelSoh, fmt.headD 0) }) h (hroom.withArgs s.args _)
        refine ⟨level, hloop, fun hlevel => hnone ?_⟩
        show s.level.map _ = none
        rw [hlevel]
        rfl
      rename_i hsoh
      rw [if_neg hsoh]
      split at h
      · rename_i hplain
        obtain ⟨out', hrest, rfl⟩ := Rendered.after_eq_some h
        obtain ⟨hput, hfit⟩ := putChar_eq hroom
        obtain ⟨level, hloop, hnone⟩ := ih (s := s.emit ptrBuf [ch]) hrest hroom.emit
        refine ⟨level, ?_, hnone⟩
        rw [if_pos hplain, if_neg hfit, hput, hloop, emit_emit]
      rename_i hpercent
      rw [if_neg hpercent]
      split at h
      · cases h
      · rename_i i text args hconv
        obtain ⟨out', hrest, rfl⟩ := Rendered.after_eq_some h
        have hroom' : ({ s with args } : FmtState).Room ptrBuf size (text ++ out').length :=
          hroom.withArgs args s.level
        obtain ⟨level, hloop, hnone⟩ :=
          ih (s := ({ s with args } : FmtState).emit ptrBuf text) hrest hroom'.emit
        refine ⟨level, ?_, hnone⟩
        rw [conversion_eq hconv hroom]
        show fmtLoop ptrBuf size fmt i _ = _
        rw [hloop, emit_emit]
        rfl

end Passes

/-! ## The two passes -/

/-- A block of memory: none of its addresses reads as null or as an error code. -/
structure ValidBlock (ptr size : Nat) : Prop where
  valid : isValid ptr = true
  below : ptr + size ≤ 0xfffff000

section TwoPasses

variable {m : Mem} {fmt : CString} {args rest : List FmtArg} {out : List UInt8} {size ptr : Nat}

/-- **The counting pass** leaves the memory alone. -/
theorem doFmtConvert_count (size : Nat) (h : render fmt args = some (out, rest))
    (hsize : out.length < size) (hsmall : size < 2 ^ 32) :
    ∃ s, doFmtConvert m 0 none fmt args size = .ok (out.length, s) ∧ s.mem = m ∧ s.args = rest := by
  have hnull : isValid 0 = false := by decide
  have hroom : FmtState.Room ⟨m, 0, 0, args, none⟩ 0 (size - 1) out.length := by
    refine ⟨?_, by omega, ?_⟩
    · show 0 + out.length ≤ size - 1
      omega
    · rw [hnull]
      rfl
  obtain ⟨level, hloop, -⟩ := fmtLoop_spec (s := ⟨m, 0, 0, args, none⟩) h hroom
  rw [emit_count hnull, Nat.zero_add] at hloop
  refine ⟨⟨m, 0, out.length, rest, level⟩, ?_, rfl, rfl⟩
  rw [doFmtConvert, if_neg (by omega), hloop]
  rfl

/-- **The writing pass**: where there is room for the text and a terminator, it writes just these. -/
theorem doFmtConvert_write (size : Nat) (level : Option (UInt8 × UInt8))
    (h : render fmt args = some (out, rest)) (hsize : out.length < size) (hsmall : size < 2 ^ 32)
    (hblock : ValidBlock ptr (out.length + 1)) :
    ∃ s, doFmtConvert m ptr level fmt args size = .ok (out.length, s) ∧
      s.mem = storeBytes m ptr (out ++ [0]) ∧ s.args = rest := by
  obtain ⟨hvalid, hbelow⟩ := hblock
  have hpos := (isValid_iff.mp hvalid).1
  have hroom : FmtState.Room ⟨m, ptr, 0, args, level⟩ ptr (size - 1) out.length := by
    refine ⟨?_, by omega, ?_⟩
    · show 0 + out.length ≤ size - 1
      omega
    · rw [hvalid]
      show 0 < ptr ∧ ptr + out.length < 0xfffff000
      omega
  obtain ⟨level', hloop, -⟩ := fmtLoop_spec (s := ⟨m, ptr, 0, args, level⟩) h hroom
  rw [emit_write hvalid, Nat.zero_add] at hloop
  refine ⟨⟨storeBytes m ptr (out ++ [0]), ptr + out.length, out.length, rest, level'⟩, ?_, rfl, rfl⟩
  rw [doFmtConvert, if_neg (by omega), hloop, storeBytes_append]
  simp only [bind, Except.bind, hvalid, if_true, pure, Except.pure]
  rfl

/-- **The two passes of `vasprintk` agree.**  The counting pass returns the length `n` of the text; in
a block of `n + 1` bytes the second pass writes the text and one terminator and nothing else,
takes the same arguments and returns `n` again. -/
theorem format_passes_agree (kmalloc : Nat → Nat) (m : Mem) (fmt : CString) (args rest : List FmtArg)
    (out : List UInt8) (hrender : render fmt args = some (out, rest))
    (hlen : out.length < 2 ^ 32 - 2)
    (hblock : isValid (kmalloc (out.length + 1)) = true →
      ValidBlock (kmalloc (out.length + 1)) (out.length + 1)) :
    (∃ s, doFmtConvert m 0 none fmt args (2 ^ 32 - 1) = .ok (out.length, s) ∧ s.mem = m ∧
      s.args = rest) ∧
    (isValid (kmalloc (out.length + 1)) = true → ∃ s,
      vasprintk kmalloc m (some fmt) args = .ok (kmalloc (out.length + 1), some s) ∧
      doFmtConvert m (kmalloc (out.length + 1)) none fmt args (out.length + 1) =
        .ok (out.length, s) ∧
      s.args = rest ∧ BytesAt s.mem (kmalloc (out.length + 1)) (out ++ [0]) ∧
      ∀ x, x < kmalloc (out.length + 1) ∨ kmalloc (out.length + 1) + (out.length + 1) ≤ x →
        s.mem x = m x) := by
  have hcount := doFmtConvert_count (m := m) (2 ^ 32 - 1) hrender (by omega) (by omega)
  refine ⟨hcount, fun hvalid => ?_⟩
  obtain ⟨s₁, hfirst, -, -⟩ := hcount
  obtain ⟨s, hsecond, hmem, hargs⟩ :=
    doFmtConvert_write (m := m) _ none hrender (Nat.lt_succ_self _) (by omega) (hblock hvalid)
  have hsize : add32 out.length 1 = out.length + 1 := add32_of_lt (by omega)
  have hlength : (out ++ [0]).length = out.length + 1 := by simp
  refine ⟨s, ?_, hsecond, hargs, ?_, fun x hx => ?_⟩
  · simp only [vasprintk, lvVasprintk, hfirst, bind, Except.bind, hsize, hvalid, Bool.true_eq_false,
      if_false, hsecond, pure, Except.pure]
  · rw [hmem]
    exact bytesAt_storeBytes m _ _
  · rw [hmem, storeBytes_of_outside (by rw [hlength]; exact hx)]

/-- **`sprintk`** writes the text and a terminator. -/
theorem sprintk_eq (h : render fmt args = some (out, rest))
    (hblock : ValidBlock ptr (out.length + 1)) :
    sprintk m ptr fmt args = .ok (out.length, storeBytes m ptr (out ++ [0])) := by
  have hbelow := hblock.below
  obtain ⟨s, hconvert, hmem, -⟩ :=
    doFmtConvert_write (m := m) (2 ^ 32 - 1) none h (by omega) (by omega) hblock
  rw [sprintk, hconvert, ← hmem]
  rfl

end TwoPasses

/-- `n=%d %s %c%%ld%q` -/
def sampleFmt : CString :=
  ⟨[110, 61, 37, 100, 32, 37, 115, 32, 37, 99, 37, 37, 108, 100, 37, 113], by decide⟩

/-- A word, the string `ok`, a character, a long. -/
def sampleArgs : List FmtArg := [.word 4096, .str ⟨[111, 107], by decide⟩, .word 33, .long 7]

theorem render_sample : render sampleFmt sampleArgs =
    some ([110, 61, 52, 48, 57, 54, 32, 111, 107, 32, 65, 37, 55, 37, 113], []) := by decide +kernel

theorem format_passes_agree_sample :
    (∃ s, doFmtConvert (fun _ => 0) 0 none sampleFmt sampleArgs (2 ^ 32 - 1) = .ok (15, s) ∧
      s.mem = (fun _ => 0) ∧ s.args = []) ∧
    (isValid 0x8c000 = true → ∃ s,
      vasprintk (fun _ => 0x8c000) (fun _ => 0) (some sampleFmt) sampleArgs =
        .ok (0x8c000, some s) ∧
      doFmtConvert (fun _ => 0) 0x8c000 none sampleFmt sampleArgs 16 = .ok (15, s) ∧ s.args = [] ∧
      BytesAt s.mem 0x8c000
        ([110, 61, 52, 48, 57, 54, 32, 111, 107, 32, 65, 37, 55, 37, 113] ++ [0]) ∧
      ∀ x, x < 0x8c000 ∨ 0x8c000 + 16 ≤ x → s.mem x = 0) :=
  format_passes_agree (fun _ => 0x8c000) (fun _ => 0) sampleFmt sampleArgs [] _ render_sample
    (by decide) (fun _ => ⟨by decide, by decide⟩)

end HeavenFox.Common
