/-
# HeavenFox.Common.Generic -- hexadecimal and binary numbers

`dec_to_hex` and `dec_to_binary` of `generic.c` divide by repeated subtraction and keep the digits
in an array on the stack, counted by `count`; then they copy them to the buffer behind a prefix,
the last one first.

`count` is never set to 0.  It begins with what happens to be on the stack, and every digit goes
to the place it says; so `dec_exact_iff`: the text, its length and the output of `%x`, `%p` and
`%b` are right if and only if it happens to be 0 in every call.
-/
import HeavenFox.Common.ApiNumber

namespace HeavenFox.Common

open HeavenFox.Logic

/-! ## Division -/

/-- The loop of `udiv_integer` and `udiv_remainder`: the quotient so far, and what is left. -/
def udivLoop (div : Nat) : Nat → Nat → Nat → Except Stop (Nat × Nat)
  | 0, _, _ => .error .spins
  | rounds + 1, divied, count =>
    if divied ≥ div then udivLoop div rounds (divied - div) (add32 count 1) else .ok (count, divied)

/-- `udiv_integer`. -/
def udivInteger (divied div : Nat) : Except Stop Nat := do
  let (count, _) ← udivLoop div (divied + 1) divied 0
  .ok count

/-- `udiv_remainder`. -/
def udivRemainder (divied div : Nat) : Except Stop Nat := do
  let (_, divied) ← udivLoop div (divied + 1) divied 0
  .ok divied

section Division

variable {div divied count rounds : Nat}

theorem udivLoop_eq (hdiv : 0 < div) (hrounds : divied < rounds)
    (hsmall : count + divied < 2 ^ 32) :
    udivLoop div rounds divied count = .ok (count + divied / div, divied % div) := by
  induction rounds generalizing divied count with
  | zero => exact absurd hrounds (Nat.not_lt_zero divied)
  | succ rounds ih =>
    rw [udivLoop]
    by_cases hge : divied ≥ div
    · rw [if_pos hge, add32_of_lt (by omega), ih (by omega) (by omega), Nat.div_eq_sub_div hdiv hge,
        Nat.mod_eq_sub_mod hge, Nat.add_assoc, Nat.add_comm 1]
    · have hlt : divied < div := Nat.lt_of_not_le hge
      rw [if_neg hge, Nat.div_eq_of_lt hlt, Nat.mod_eq_of_lt hlt, Nat.add_zero]

/-- **The quotient**, for a divisor that is not 0. -/
theorem udivInteger_eq (hdiv : 0 < div) (hsmall : divied < 2 ^ 32) :
    udivInteger divied div = .ok (divied / div) := by
  rw [udivInteger, udivLoop_eq hdiv (Nat.lt_succ_self divied) (by omega), Nat.zero_add]
  rfl

/-- **The remainder.** -/
theorem udivRemainder_eq (hdiv : 0 < div) (hsmall : divied < 2 ^ 32) :
    udivRemainder divied div = .ok (divied % div) := by
  rw [udivRemainder, udivLoop_eq hdiv (Nat.lt_succ_self divied) (by omega)]
  rfl

end Division

/-! ## Digits on the stack -/

/-- The local variables that are not initialised: `count` and `temp`, with what happens to be on the
stack. -/
structure DecStack where
  count : Int
  temp : Nat → UInt8

/-- `temp[count] = ch`, in an array of `size` characters. -/
def DecStack.put (s : DecStack) (size : Nat) (ch : UInt8) : Except Stop DecStack :=
  if 0 ≤ s.count ∧ s.count < size then
    .ok ⟨s.count + 1, Function.update s.temp s.count.toNat ch⟩
  else .error .fault

/-- The first loop of both: the digits of the number, the last one first.  A 32-bit number has at most
32 of them. -/
def decLoop (base size : Nat) (digit : Nat → UInt8) : Nat → Nat → DecStack → Except Stop DecStack
  | 0, _, _ => .error .spins
  | rounds + 1, number, s => do
    let result ← udivRemainder number base
    let number ← udivInteger number base
    let s ← s.put size (digit result)
    if number ≠ 0 then decLoop base size digit rounds number s else .ok s

/-- The second one: from `idx` on the digits are copied, the last one first. -/
def copyBack (s : DecStack) (buf : Nat) : Nat → Nat → Mem → Mem
  | 0, _, m => m
  | rounds + 1, idx, m =>
    copyBack s buf rounds (idx + 1) (store8 m (buf + idx + 2) (s.temp (s.count.toNat - idx - 1)))

/-- What the two functions have in common: the base, the size of the array, the second character of the
prefix and the characters of the digits. -/
def decConvert (base size : Nat) (mark : UInt8) (digit : Nat → UInt8) (stack : DecStack) (m : Mem)
    (buf number : Nat) : Except Stop (Nat × Mem) := do
  let s ← decLoop base size digit 32 number stack
  let lenth := (s.count + 2).toNat
  if buf = 0 then .ok (lenth, m)
  else
    let m := store8 (store8 m buf 48) (buf + 1) mark
    .ok (lenth, copyBack s buf s.count.toNat 0 m)

/-- The character of a hexadecimal digit, in small or capital letters. -/
def hexChar (mode : Bool) (result : Nat) : UInt8 :=
  if result ≥ 10 then UInt8.ofNat (result - 10 + if mode then 65 else 97)
  else UInt8.ofNat (result + 48)

/-- `dec_to_hex`. -/
def decToHex (stack : DecStack) (m : Mem) (buf number : Nat) (mode : Bool) : Except Stop (Nat × Mem) :=
  decConvert 16 12 (if mode then 88 else 120) (hexChar mode) stack m buf number

/-- `dec_to_binary`. -/
def decToBinary (stack : DecStack) (m : Mem) (buf number : Nat) : Except Stop (Nat × Mem) :=
  decConvert 2 36 98 digitChar stack m buf number

/-! ## What the loops leave -/

section Loops

variable {base size rounds number : Nat} {digit : Nat → UInt8} {s t : DecStack}

/-- **One round.** -/
theorem decLoop_succ (hbase : 1 < base) (hsmall : number < 2 ^ 32) :
    decLoop base size digit (rounds + 1) number s = (do
      let s ← s.put size (digit (number % base))
      if number / base ≠ 0 then decLoop base size digit rounds (number / base) s else .ok s) := by
  rw [decLoop, udivRemainder_eq (by omega) hsmall, udivInteger_eq (by omega) hsmall]
  rfl

/-- The counter goes on by the number of digits, from wherever it was. -/
theorem decLoop_count (hbase : 1 < base) (hsmall : number < 2 ^ 32)
    (h : decLoop base size digit rounds number s = .ok t) :
    t.count = s.count + (lowDigits base number).length := by
  induction rounds generalizing number s with
  | zero => cases h
  | succ rounds ih =>
    rw [decLoop_succ hbase hsmall] at h
    rw [lowDigits_eq hbase]
    rcases hput : s.put size (digit (number % base)) with e | s'
    · rw [hput] at h
      cases h
    rw [hput] at h
    have hcount : s'.count = s.count + 1 := by
      unfold DecStack.put at hput
      split at hput
      · rw [← Except.ok.inj hput]
      · cases hput
    change (if number / base ≠ 0 then _ else _) = Except.ok t at h
    by_cases hmore : number / base = 0
    · rw [if_neg (not_not.mpr hmore)] at h
      rw [if_pos hmore, ← Except.ok.inj h, hcount]
      rfl
    · have hnext : number / base < 2 ^ 32 := (Nat.div_le_self number base).trans_lt hsmall
      rw [if_pos hmore] at h
      rw [if_neg hmore, ih hnext h, hcount, List.length_cons]
      push_cast
      omega

/-- **The digits lie in the array**, where the counter was when they were written. -/
theorem decLoop_digits (size : Nat) (digit : Nat → UInt8) {n : Nat} (hbase : 1 < base)
    (hsmall : number < 2 ^ 32)
    (hcount : s.count = n) (hroom : n + (lowDigits base number).length ≤ size)
    (hrounds : (lowDigits base number).length ≤ rounds) :
    ∃ t, decLoop base size digit rounds number s = .ok t ∧
      t.count = (n + (lowDigits base number).length : Nat) ∧ (∀ i < n, t.temp i = s.temp i) ∧
      ∀ i (hi : i < (lowDigits base number).length),
        t.temp (n + i) = digit ((lowDigits base number)[i]) := by
  induction rounds generalizing number s n with
  | zero =>
    have hne := lowDigits_ne_nil hbase number
    exact absurd (List.length_eq_zero_iff.mp (Nat.le_zero.mp hrounds)) hne
  | succ rounds ih =>
    have heq := lowDigits_eq hbase number
    have hpos : 0 < (lowDigits base number).length :=
      List.length_pos_iff.mpr (lowDigits_ne_nil hbase number)
    have hput : s.put size (digit (number % base)) =
        .ok ⟨(n + 1 : Nat), Function.update s.temp n (digit (number % base))⟩ := by
      rw [DecStack.put, hcount, if_pos (by omega), Int.toNat_natCast]
      rfl
    rw [decLoop_succ hbase hsmall, hput]
    simp only [bind, Except.bind]
    by_cases hmore : number / base = 0
    · rw [if_pos hmore] at heq
      refine ⟨_, if_neg (not_not.mpr hmore), ?_, fun i hi => ?_, fun i hi => ?_⟩
      · rw [heq]
        rfl
      · exact Function.update_of_ne (Nat.ne_of_lt hi) _ _
      · obtain rfl : i = 0 := by
          rw [heq] at hi
          exact Nat.lt_one_iff.mp hi
        simp only [heq, List.getElem_cons_zero]
        exact Function.update_self _ _ _
    · rw [if_neg hmore] at heq
      rw [heq, List.length_cons] at hroom hrounds
      obtain ⟨t, ht, htcount, hbelow, hdigits⟩ :=
        ih (s := ⟨(n + 1 : Nat), Function.update s.temp n (digit (number % base))⟩)
          ((Nat.div_le_self number base).trans_lt hsmall) rfl (by omega) (by omega)
      refine ⟨t, by rw [if_pos hmore, ht], ?_, fun i hi => ?_, fun i hi => ?_⟩
      · rw [htcount, heq, List.length_cons]
        omega
      · rw [hbelow i (by omega)]
        exact Function.update_of_ne (Nat.ne_of_lt hi) _ _
      · simp only [heq] at hi ⊢
        rcases i with _ | i
        · rw [List.getElem_cons_zero, Nat.add_zero, hbelow n (Nat.lt_succ_self n)]
          exact Function.update_self _ _ _
        · have hindex : n + (i + 1) = n + 1 + i := by omega
          rw [List.getElem_cons_succ, hindex]
          exact hdigits i (by simpa using hi)

/-- Copying writes the array backwards. -/
theorem copyBack_eq {buf idx : Nat} {m : Mem} :
    copyBack s buf rounds idx m = storeBytes m (buf + idx + 2)
      ((List.range rounds).map fun j => s.temp (s.count.toNat - (idx + j) - 1)) := by
  induction rounds generalizing idx m with
  | zero => rfl
  | succ rounds ih =>
    rw [copyBack, ih, List.range_succ_eq_map, List.map_cons, List.map_map, storeBytes]
    have haddr : buf + (idx + 1) + 2 = buf + idx + 2 + 1 := by omega
    have htail : ((fun j => s.temp (s.count.toNat - (idx + j) - 1)) ∘ Nat.succ) =
        fun j => s.temp (s.count.toNat - (idx + 1 + j) - 1) := by
      funext j
      show s.temp (s.count.toNat - (idx + (j + 1)) - 1) = _
      have hindex : idx + (j + 1) = idx + 1 + j := by omega
      rw [hindex]
    rw [haddr, htail]
    rfl

end Loops

/-! ## The two functions -/

/-- A number with its prefix. -/
def prefixed (base : Nat) (mark : UInt8) (digit : Nat → UInt8) (number : Nat) : List UInt8 :=
  [48, mark] ++ (numeral base number).map digit

/-- `0x` or `0X`, and the hexadecimal digits. -/
def hexText (mode : Bool) (number : Nat) : List UInt8 :=
  prefixed 16 (if mode then 88 else 120) (hexChar mode) number

/-- `0b` and the binary digits. -/
def binaryText (number : Nat) : List UInt8 := prefixed 2 98 digitChar number

section Functions

variable {base size : Nat} {mark : UInt8} {digit : Nat → UInt8} {stack : DecStack} {m : Mem}
  {buf number : Nat}

theorem prefixed_length (base : Nat) (mark : UInt8) (digit : Nat → UInt8) (number : Nat) :
    (prefixed base mark digit number).length = (lowDigits base number).length + 2 := by
  rw [prefixed, List.length_append, List.length_map, numeral_length, Nat.add_comm]
  rfl

/-- **With the counter at 0** the text is written, or only counted. -/
theorem decConvert_eq (hbase : 1 < base) (hsmall : number < 2 ^ 32)
    (hsize : (lowDigits base number).length ≤ size)
    (hrounds : (lowDigits base number).length ≤ 32) (hcount : stack.count = 0) :
    decConvert base size mark digit stack m buf number =
      .ok ((prefixed base mark digit number).length,
        if buf = 0 then m else storeBytes m buf (prefixed base mark digit number)) := by
  obtain ⟨t, ht, htcount, -, hdigits⟩ := decLoop_digits size digit (n := 0) hbase
    hsmall hcount (by omega) hrounds
  rw [Nat.zero_add] at htcount
  have hlenth : (t.count + 2).toNat = (prefixed base mark digit number).length := by
    rw [prefixed_length, htcount]
    omega
  rw [decConvert, ht]
  simp only [bind, Except.bind, hlenth]
  by_cases hnull : buf = 0
  · rw [if_pos hnull, if_pos hnull]
  have hlist : (List.range t.count.toNat).map (fun j => t.temp (t.count.toNat - (0 + j) - 1)) =
      (numeral base number).map digit := by
    rw [htcount, Int.toNat_natCast, numeral]
    refine List.ext_getElem (by simp) fun i hi _ => ?_
    have hlt : i < (lowDigits base number).length := by simpa using hi
    have hindex : (lowDigits base number).length - (0 + i) - 1 =
        0 + ((lowDigits base number).length - 1 - i) := by omega
    simp only [List.getElem_map, List.getElem_range, List.getElem_reverse, hindex]
    exact hdigits _ (by omega)
  rw [if_neg hnull, if_neg hnull, copyBack_eq, hlist]
  rfl

/-- The length says what the counter was. -/
theorem decConvert_count {m' : Mem} (hbase : 1 < base) (hsmall : number < 2 ^ 32)
    (h : decConvert base size mark digit stack m buf number =
      .ok ((prefixed base mark digit number).length, m')) : stack.count = 0 := by
  rcases hloop : decLoop base size digit 32 number stack with e | t
  · rw [decConvert, hloop] at h
    cases h
  have hcount := decLoop_count hbase hsmall hloop
  have hlenth : (t.count + 2).toNat = (prefixed base mark digit number).length := by
    rw [decConvert, hloop] at h
    simp only [bind, Except.bind] at h
    split at h
    all_goals exact congrArg Prod.fst (Except.ok.inj h)
  rw [prefixed_length] at hlenth
  omega

theorem hex_length_le (hsmall : number < 2 ^ 32) : (lowDigits 16 number).length ≤ 8 :=
  lowDigits_length_le (by decide) (k := 7) hsmall

theorem binary_length_le (hsmall : number < 2 ^ 32) : (lowDigits 2 number).length ≤ 32 :=
  lowDigits_length_le (by decide) (k := 31) hsmall

theorem decToHex_eq (mode : Bool) (hsmall : number < 2 ^ 32) (hcount : stack.count = 0) :
    decToHex stack m buf number mode =
      .ok ((hexText mode number).length,
        if buf = 0 then m else storeBytes m buf (hexText mode number)) := by
  have hlen := hex_length_le hsmall
  exact decConvert_eq (by decide) hsmall (by omega) (by omega) hcount

theorem decToBinary_eq (hsmall : number < 2 ^ 32) (hcount : stack.count = 0) :
    decToBinary stack m buf number =
      .ok ((binaryText number).length,
        if buf = 0 then m else storeBytes m buf (binaryText number)) := by
  have hlen := binary_length_le hsmall
  exact decConvert_eq (by decide) hsmall (by omega) hlen hcount

end Functions

/-! ## The conversions -/

/-- What the cases of `%x`, `%p` and `%b` have in common: `dec` counts the characters in a first call,
with what is on the stack then, and writes them in a second one. -/
def FmtState.convertDec (dec : DecStack → Mem → Nat → Nat → Except Stop (Nat × Mem))
    (null full : DecStack) (s : FmtState) (ptrBuf size : Nat) : Except Stop FmtState :=
  match s.args with
  | .word num :: args => do
    let s := { s with args }
    let (count, _) ← dec null s.mem 0 num.toNat
    if add32 s.lenth count > size then .ok s
    else do
      let (_, mem) ← dec full s.mem s.data num.toNat
      .ok { s with
        mem
        data := if isValid ptrBuf then s.data + count else s.data
        lenth := add32 s.lenth count }
  | _ => .error .fault

/-- The `case 'x'` and the `case 'p'`. -/
def FmtState.convertHex (null full : DecStack) (s : FmtState) (ptrBuf size : Nat) :
    Except Stop FmtState :=
  s.convertDec (fun stack m buf number => decToHex stack m buf number false) null full ptrBuf size

/-- The `case 'b'`. -/
def FmtState.convertBinary (null full : DecStack) (s : FmtState) (ptrBuf size : Nat) :
    Except Stop FmtState :=
  s.convertDec decToBinary null full ptrBuf size

/-- The text of a number is emitted. -/
theorem convertDec_eq {dec : DecStack → Mem → Nat → Nat → Except Stop (Nat × Mem)}
    {null full : DecStack} {s : FmtState} {ptrBuf size : Nat} {num : UInt32} {args : List FmtArg}
    {text : List UInt8}
    (hdec : ∀ stack m buf, stack = null ∨ stack = full → dec stack m buf num.toNat =
      .ok (text.length, if buf = 0 then m else storeBytes m buf text))
    (hargs : s.args = .word num :: args) (hroom : s.Room ptrBuf size text.length)
    (hbuf : ptrBuf = 0 ∨ isValid ptrBuf = true) :
    s.convertDec dec null full ptrBuf size = .ok ({ s with args }.emit ptrBuf text) := by
  have hroom' : s.Room ptrBuf size (text ++ []).length := by rwa [List.append_nil]
  obtain ⟨hadd, hfit⟩ := hroom'.fits
  have hcursor := hroom.cursor
  unfold FmtState.convertDec
  rw [hargs]
  simp only [hdec null _ _ (.inl rfl), hdec full _ _ (.inr rfl), bind, Except.bind, hadd, if_neg hfit,
    FmtState.emit]
  rcases hbuf with rfl | hvalid
  · have hdata : s.data = 0 := hcursor
    rw [if_pos hdata]
    rfl
  · rw [hvalid] at hcursor
    have hdata : s.data ≠ 0 := Nat.pos_iff_ne_zero.mp hcursor.1
    rw [if_neg hdata, hvalid]
    rfl

/-- What is said of both functions for one number, when `null` is on the stack in a call without a
buffer and `full` in one with a buffer: the text and its length, in both calls, and the same text
and length for a conversion that has room. -/
structure DecExact (m : Mem) (buf : Nat) (num : UInt32) (null full : DecStack) : Prop where
  hexNull : ∀ mode, decToHex null m 0 num.toNat mode = .ok ((hexText mode num.toNat).length, m)
  hex : ∀ mode, decToHex full m buf num.toNat mode =
    .ok ((hexText mode num.toNat).length, storeBytes m buf (hexText mode num.toNat))
  binaryNull : decToBinary null m 0 num.toNat = .ok ((binaryText num.toNat).length, m)
  binary : decToBinary full m buf num.toNat =
    .ok ((binaryText num.toNat).length, storeBytes m buf (binaryText num.toNat))
  convertHex : ∀ (s : FmtState) (ptrBuf size : Nat) (args : List FmtArg),
    s.args = .word num :: args → s.Room ptrBuf size (hexText false num.toNat).length →
    ptrBuf = 0 ∨ isValid ptrBuf = true →
    s.convertHex null full ptrBuf size = .ok ({ s with args }.emit ptrBuf (hexText false num.toNat))
  convertBinary : ∀ (s : FmtState) (ptrBuf size : Nat) (args : List FmtArg),
    s.args = .word num :: args → s.Room ptrBuf size (binaryText num.toNat).length →
    ptrBuf = 0 ∨ isValid ptrBuf = true →
    s.convertBinary null full ptrBuf size = .ok ({ s with args }.emit ptrBuf (binaryText num.toNat))

/-- **The counter has to be 0 by chance.** -/
theorem dec_exact_iff (m : Mem) (buf : Nat) (num : UInt32) (null full : DecStack)
    (hbuf : ValidBlock buf 34) : DecExact m buf num null full ↔ null.count = 0 ∧ full.count = 0 := by
  have hsmall : num.toNat < 2 ^ 32 := num.toNat_lt
  have hnot : buf ≠ 0 := (isValid_iff.mp hbuf.valid).1.ne'
  constructor
  · intro h
    exact ⟨decConvert_count (by decide) hsmall (h.hexNull false),
      decConvert_count (by decide) hsmall (h.hex false)⟩
  · rintro ⟨hnull, hfull⟩
    have hcount : ∀ stack, stack = null ∨ stack = full → stack.count = 0 := by
      rintro stack (rfl | rfl)
      · exact hnull
      · exact hfull
    refine ⟨fun mode => ?_, fun mode => ?_, ?_, ?_, fun s ptrBuf size args hargs hroom hptr => ?_,
      fun s ptrBuf size args hargs hroom hptr => ?_⟩
    · rw [decToHex_eq mode hsmall hnull, if_pos rfl]
    · rw [decToHex_eq mode hsmall hfull, if_neg hnot]
    · rw [decToBinary_eq hsmall hnull, if_pos rfl]
    · rw [decToBinary_eq hsmall hfull, if_neg hnot]
    · exact convertDec_eq (fun stack _ _ hstack => decToHex_eq false hsmall (hcount stack hstack))
        hargs hroom hptr
    · exact convertDec_eq (fun stack _ _ hstack => decToBinary_eq hsmall (hcount stack hstack))
        hargs hroom hptr

theorem dec_exact_iff_zero :
    DecExact (fun _ => 0) 0x8c000 0x2f ⟨0, fun _ => 0⟩ ⟨0, fun _ => 7⟩ ↔
      (0 : Int) = 0 ∧ (0 : Int) = 0 :=
  dec_exact_iff (fun _ => 0) 0x8c000 0x2f _ _ ⟨by decide, by decide⟩

/-- With 1 on the stack a 5 becomes `0x5!`, the `!` being what was in the array.  With 300 there the
first digit misses the array. -/
theorem counter_is_stale :
    ¬ DecExact (fun _ => 0) 0x8c000 5 ⟨1, fun _ => 33⟩ ⟨1, fun _ => 33⟩ ∧
      (decToHex ⟨1, fun _ => 33⟩ (fun _ => 0) 0x8c000 5 false).map (fun r => r.1) = .ok 4 ∧
      (decToHex ⟨1, fun _ => 33⟩ (fun _ => 0) 0x8c000 5 false).map (fun r => r.2 0x8c003) = .ok 33 ∧
      (decToHex ⟨300, fun _ => 0⟩ (fun _ => 0) 0x8c000 5 false).map (fun r => r.1) = .error .fault :=
  ⟨fun h => absurd (decConvert_count (by decide) (by decide) (h.hexNull false)) (by decide),
    by decide, by decide, by decide⟩

end HeavenFox.Common
