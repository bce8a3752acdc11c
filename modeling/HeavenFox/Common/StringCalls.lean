/-
# HeavenFox.Common.StringCalls -- copies and comparisons of `api_string.c`

`kstrlcpy` writes a terminator where it cuts a string off, and nowhere else; `kstrcpy` never writes
one but for the empty string.  So what they leave is a string only where a zero byte was there
before (`copies_end_iff`).

`kstrcmp` and `kstrncmp` look for the end of their second operand alone, and `kstrcpy` for that of
its source, each after it has gone on by one character.  A second operand that is a beginning of
the first is taken for the whole of it, and of an empty string the character behind the terminator
is read (`compares_exact_iff`).
-/
import HeavenFox.Common.ApiString

namespace HeavenFox.Common

open HeavenFox.Logic

/-! ## The loops -/

/-- What may be read of a string: its characters and the terminator. -/
def CString.readable (s : CString) : List UInt8 := s.val ++ [0]

/-- The loop of `do_string_copy`.  The test looks at the character behind the one that was copied;
where that is no part of the string, the loop does not get there. -/
def copyLoop : List UInt8 → Mem → Nat → Except Stop Mem
  | [], _, _ => .error .fault
  | ch :: ptrCh, m, ptrBuf =>
    let m := store8 m ptrBuf ch
    match ptrCh.head? with
    | none => .error .fault
    | some next => if next ≠ 0 then copyLoop ptrCh m (ptrBuf + 1) else .ok m

/-- `do_string_copy`, which is `kstrcpy`: the destination, and the memory. -/
def doStringCopy (m : Mem) (ptrDst : Nat) (src : CString) : Except Stop (Nat × Mem) :=
  (copyLoop src.readable m ptrDst).map fun m => (ptrDst, m)

/-- The loop of `do_string_compare`: whether the strings differ. -/
def compareLoop : List UInt8 → List UInt8 → Except Stop Bool
  | buf :: ptrBuf, ch :: ptrCh =>
    if buf ≠ ch then .ok true
    else
      match ptrCh.head? with
      | none => .error .fault
      | some next => if next ≠ 0 then compareLoop ptrBuf ptrCh else .ok false
  | _, _ => .error .fault

/-- `do_string_compare`. -/
def doStringCompare (dst src : CString) : Except Stop Bool := compareLoop dst.readable src.readable

/-- The loop of `do_string_n_compare`. -/
def nCompareLoop : List UInt8 → List UInt8 → Nat → Except Stop Bool
  | buf :: ptrBuf, ch :: ptrCh, size =>
    if buf ≠ ch then .ok true
    else
      match ptrCh.head? with
      | none => .error .fault
      | some next =>
        if next ≠ 0 ∧ size - 1 ≠ 0 then nCompareLoop ptrBuf ptrCh (size - 1) else .ok false
  | _, _, _ => .error .fault

/-- `do_string_n_compare`. -/
def doStringNCompare (dst src : CString) (size : Nat) : Except Stop Bool :=
  if size = 0 then .ok true else nCompareLoop dst.readable src.readable size

/-- `kstrcmp`. -/
def kstrcmp (s1 s2 : CString) : Except Stop Int :=
  (doStringCompare s1 s2).map fun differ => if differ then 1 else 0

/-- `kstrncmp`. -/
def kstrncmp (s1 s2 : CString) (n : Nat) : Except Stop Int :=
  (doStringNCompare s1 s2 n).map fun differ => if differ then 1 else 0

/-! ## Copies -/

section Copies

variable {m : Mem} {a p size n : Nat} {l : List UInt8}

/-- `kstrlcpy` of a string that fits: no terminator is written. -/
theorem copySafeLoop_fits (h : l.length < size) : copySafeLoop l size m p = storeBytes m p l := by
  induction l generalizing size m p with
  | nil => rfl
  | cons ch l ih =>
    obtain ⟨n, rfl⟩ : ∃ n, size = n + 1 := ⟨size - 1, by simp at h; omega⟩
    rw [List.length_cons] at h
    rw [copySafeLoop, if_pos (by omega), ih (by omega)]
    rfl

/-- `kstrlcpy` of a string that does not fit: it is cut off, and ended. -/
theorem copySafeLoop_cut (h : n < l.length) :
    copySafeLoop l (n + 1) m p = storeBytes m p (l.take n ++ [0]) := by
  induction l generalizing n m p with
  | nil => exact absurd h (Nat.not_lt_zero n)
  | cons ch l ih =>
    cases n with
    | zero => rfl
    | succ n =>
      rw [copySafeLoop, if_pos (Nat.succ_ne_zero n), ih (by simpa using h)]
      rfl

/-- `kstrcpy`: no terminator is written. -/
theorem copyLoop_eq (hne : l ≠ []) (hl : 0 ∉ l) :
    copyLoop (l ++ [0]) m p = .ok (storeBytes m p l) := by
  induction l generalizing m p with
  | nil => exact absurd rfl hne
  | cons ch l ih =>
    cases l with
    | nil => rfl
    | cons next l =>
      have hnext : next ≠ 0 := fun h => hl (by simp [h])
      show (if next ≠ 0 then copyLoop (next :: l ++ [0]) (store8 m p ch) (p + 1)
        else .ok (store8 m p ch)) = _
      rw [if_pos hnext, ih (List.cons_ne_nil _ _) fun h => hl (List.mem_cons_of_mem ch h)]
      rfl

/-- Characters become a string exactly in front of a zero byte. -/
theorem cStrAt_storeBytes_iff (hl : 0 ∉ l) :
    CStrAt (storeBytes m a l) a l ↔ m (a + l.length) = 0 := by
  have hend : storeBytes m a l (a + l.length) = m (a + l.length) :=
    storeBytes_of_outside (Or.inr (Nat.le_refl _))
  constructor
  · intro h
    rw [← hend]
    exact (bytesAt_snoc.mp h.bytes).2
  · intro h
    exact ⟨bytesAt_snoc.mpr ⟨bytesAt_storeBytes m a l, hend.trans h⟩, hl⟩

end Copies

/-- `kstrlcpy` leaves the string, or as much of it as fits, with its terminator, nothing else is
touched, and the length of the string is returned. -/
structure StrlcpyEnds (m : Mem) (dst : Nat) (src : CString) (n : Nat) : Prop where
  returned : (doStringNCopySafe m dst src n).1 = src.val.length
  ended : CStrAt (doStringNCopySafe m dst src n).2 dst
    (src.val.take (min src.val.length (n - 1)))
  untouched : ∀ x, x < dst ∨ dst + min src.val.length (n - 1) + 1 ≤ x →
    (doStringNCopySafe m dst src n).2 x = m x

/-- `kstrcpy` reads nothing behind its source, and leaves it with its terminator. -/
def StrcpyEnds (m : Mem) (dst : Nat) (src : CString) : Prop :=
  ∃ m', doStringCopy m dst src = .ok (dst, m') ∧ CStrAt m' dst src.val ∧
    ∀ x, x < dst ∨ dst + src.val.length + 1 ≤ x → m' x = m x

section Ends

variable {m : Mem} {dst n : Nat} {src : CString}

theorem strlcpyEnds_of_cut (hsrc : src.val.length < 2 ^ 32) (hn : 1 ≤ n)
    (hcut : n ≤ src.val.length) : StrlcpyEnds m dst src n := by
  obtain ⟨k, rfl⟩ : ∃ k, n = k + 1 := ⟨n - 1, by omega⟩
  have hmin : min src.val.length (k + 1 - 1) = k := by omega
  have hmem : (doStringNCopySafe m dst src (k + 1)).2 =
      storeBytes m dst (src.val.take k ++ [0]) := copySafeLoop_cut hcut
  refine ⟨Nat.mod_eq_of_lt hsrc, ?_, ?_⟩
  · rw [hmin, hmem]
    exact ⟨bytesAt_storeBytes _ _ _, fun h => src.2 (List.mem_of_mem_take h)⟩
  · intro x hx
    rw [hmin] at hx
    rw [hmem, storeBytes_of_outside]
    rw [List.length_append, List.length_take, List.length_singleton]
    omega

theorem strlcpyEnds_of_fits (hsrc : src.val.length < 2 ^ 32) (hfits : src.val.length < n) :
    StrlcpyEnds m dst src n ↔ m (dst + src.val.length) = 0 := by
  have hmin : min src.val.length (n - 1) = src.val.length := by omega
  have hmem : (doStringNCopySafe m dst src n).2 = storeBytes m dst src.val :=
    copySafeLoop_fits hfits
  rw [← cStrAt_storeBytes_iff src.2, ← hmem]
  constructor
  · intro h
    simpa only [hmin, List.take_length] using h.ended
  · intro h
    refine ⟨Nat.mod_eq_of_lt hsrc, ?_, ?_⟩
    · rw [hmin, List.take_length]
      exact h
    · intro x hx
      rw [hmem, storeBytes_of_outside (by omega)]

theorem strcpyEnds_of_nonempty (hne : src.val ≠ []) :
    StrcpyEnds m dst src ↔ m (dst + src.val.length) = 0 := by
  have hcopy : doStringCopy m dst src = .ok (dst, storeBytes m dst src.val) := by
    rw [doStringCopy, CString.readable, copyLoop_eq hne src.2]
    rfl
  rw [← cStrAt_storeBytes_iff src.2]
  constructor
  · rintro ⟨m', hm, hend, -⟩
    rw [hcopy] at hm
    cases hm
    exact hend
  · intro h
    exact ⟨_, hcopy, h, fun x hx => storeBytes_of_outside (by omega)⟩

/-- Behind the terminator of the empty string the loop goes on. -/
theorem not_strcpyEnds_of_empty (h : src.val = []) : ¬ StrcpyEnds m dst src := by
  rintro ⟨m', hm, -⟩
  rw [doStringCopy, CString.readable, h] at hm
  cases hm

end Ends

/-- **`kstrlcpy` and `kstrcpy` leave a string** where one is cut off, or where the byte behind the
copy is zero already.  A string is shorter than the memory. -/
theorem copies_end_iff (m : Mem) (dst : Nat) (src : CString) {n : Nat} (hn : 1 ≤ n)
    (hsrc : src.val.length < 2 ^ 32) :
    (StrlcpyEnds m dst src n ↔ n ≤ src.val.length ∨ m (dst + src.val.length) = 0) ∧
      (StrcpyEnds m dst src ↔ src.val ≠ [] ∧ m (dst + src.val.length) = 0) := by
  constructor
  · rcases Nat.lt_or_ge src.val.length n with hfits | hcut
    · rw [strlcpyEnds_of_fits hsrc hfits, or_iff_right (Nat.not_le.mpr hfits)]
    · exact iff_of_true (strlcpyEnds_of_cut hsrc hn hcut) (Or.inl hcut)
  · by_cases hne : src.val = []
    · exact iff_of_false (not_strcpyEnds_of_empty hne) fun h => h.1 hne
    · rw [strcpyEnds_of_nonempty hne]
      exact (and_iff_right hne).symm

/-- `"a"` over zeros: four bytes are enough, and so are two. -/
theorem copies_end_iff_zeroed :
    StrlcpyEnds (fun _ => 0) 0x8c000 ⟨[97], by decide⟩ 4 ∧
      StrcpyEnds (fun _ => 0) 0x8c000 ⟨[97], by decide⟩ := by
  obtain ⟨hlcpy, hcpy⟩ :=
    copies_end_iff (fun _ => 0) 0x8c000 ⟨[97], by decide⟩ (n := 4) (by decide) (by decide)
  exact ⟨hlcpy.mpr (Or.inr rfl), hcpy.mpr ⟨List.cons_ne_nil _ _, rfl⟩⟩

/-- `"a"` over other bytes stays without its end, and the empty string is not copied at all. -/
theorem copy_is_not_ended :
    ¬ StrlcpyEnds (fun _ => 98) 0x8c000 ⟨[97], by decide⟩ 4 ∧
      (doStringNCopySafe (fun _ => 98) 0x8c000 ⟨[97], by decide⟩ 4).2 (0x8c000 + 1) = 98 ∧
      ¬ StrcpyEnds (fun _ => 98) 0x8c000 ⟨[97], by decide⟩ ∧
      doStringCopy (fun _ => 98) 0x8c000 ⟨[], by decide⟩ = .error .fault := by
  refine ⟨?_, by decide, ?_, rfl⟩
  · rw [strlcpyEnds_of_fits (by decide) (by decide)]
    decide
  · rw [strcpyEnds_of_nonempty (List.cons_ne_nil _ _)]
    decide

/-! ## Comparisons -/

section Comparisons

variable {s t : List UInt8} {n : Nat}

/-- The first is read along the second, up to `n` characters of it. -/
theorem nCompareLoop_eq (hne : t ≠ []) (ht : 0 ∉ t) (hn : 1 ≤ n) :
    nCompareLoop (s ++ [0]) (t ++ [0]) n = .ok (!(t.take n).isPrefixOf s) := by
  induction t generalizing s n with
  | nil => exact absurd rfl hne
  | cons c t ih =>
    obtain ⟨k, rfl⟩ : ∃ k, n = k + 1 := ⟨n - 1, by omega⟩
    rw [List.take_succ_cons]
    cases s with
    | nil =>
      -- the terminator of the first differs from every character of the second
      have hc : (0 : UInt8) ≠ c := fun h => ht (by simp [h])
      show (if (0 : UInt8) ≠ c then Except.ok true else _) = _
      rw [if_pos hc]
      rfl
    | cons b s =>
      rw [List.cons_append, List.cons_append, nCompareLoop, List.isPrefixOf_cons_cons]
      by_cases hb : b = c
      · rw [if_neg (not_not.mpr hb), hb, beq_self_eq_true, Bool.true_and]
        cases t with
        | nil => simp
        | cons next t =>
          have hnext : next ≠ 0 := fun h => ht (by simp [h])
          have ht' : 0 ∉ next :: t := fun h => ht (List.mem_cons_of_mem c h)
          show (if next ≠ 0 ∧ k + 1 - 1 ≠ 0 then nCompareLoop (s ++ [0]) (next :: t ++ [0]) (k + 1 - 1)
            else .ok false) = _
          rw [Nat.add_sub_cancel]
          rcases Nat.eq_zero_or_pos k with rfl | hk
          · simp
          · rw [if_pos ⟨hnext, by omega⟩, ih (List.cons_ne_nil _ _) ht' hk]
      · have hbeq : (c == b) = false := beq_eq_false_iff_ne.mpr (Ne.symm hb)
        rw [if_pos hb, hbeq]
        rfl

/-- Without a bound the loop is the one with a bound that is never met. -/
theorem compareLoop_eq_nCompareLoop (hn : t.length ≤ n) :
    compareLoop s t = nCompareLoop s t n := by
  induction t generalizing s n with
  | nil => cases s <;> rfl
  | cons c t ih =>
    cases s with
    | nil => rfl
    | cons b s =>
      rw [List.length_cons] at hn
      rw [compareLoop, nCompareLoop]
      cases t with
      | nil => rfl
      | cons next t =>
        have hmore : n - 1 ≠ 0 := by
          rw [List.length_cons] at hn
          omega
        have hrest : (next :: t).length ≤ n - 1 := by omega
        simp only [List.head?_cons, hmore, ne_eq, not_false_eq_true, and_true, ih hrest]

end Comparisons

/-- `kstrcmp` answers whether the strings are equal, and reads nothing behind them. -/
def StrcmpExact (s t : CString) : Prop := ∃ r, kstrcmp s t = .ok r ∧ (r = 0 ↔ s.val = t.val)

/-- `kstrncmp` answers whether the strings are equal up to `n` characters, and reads nothing behind
them. -/
def StrncmpExact (s t : CString) (n : Nat) : Prop :=
  ∃ r, kstrncmp s t n = .ok r ∧ (r = 0 ↔ s.val.take n = t.val.take n)

section Exact

variable {s t : CString} {n : Nat}

theorem kstrncmp_of_nonempty (hne : t.val ≠ []) (hn : 1 ≤ n) :
    kstrncmp s t n = .ok (if t.val.take n <+: s.val then 0 else 1) := by
  rw [kstrncmp, doStringNCompare, if_neg (by omega), CString.readable, CString.readable,
    nCompareLoop_eq hne t.2 hn]
  show Except.ok _ = _
  by_cases h : t.val.take n <+: s.val
  · rw [if_pos h, List.isPrefixOf_iff_prefix.mpr h]
    rfl
  · have hfalse : (t.val.take n).isPrefixOf s.val = false := by
      rw [← Bool.not_eq_true, List.isPrefixOf_iff_prefix]
      exact h
    rw [if_neg h, hfalse]
    rfl

/-- An empty second operand: any character of the first differs from its terminator. -/
theorem strncmpExact_of_empty (ht : t.val = []) (hn : 1 ≤ n) :
    StrncmpExact s t n ↔ s.val ≠ [] := by
  unfold StrncmpExact
  rw [kstrncmp, doStringNCompare, if_neg (by omega), CString.readable, CString.readable, ht]
  rcases hs : s.val with _ | ⟨b, l⟩
  · refine iff_of_false ?_ (not_not.mpr rfl)
    rintro ⟨r, hr, -⟩
    cases hr
  · have hb : b ≠ 0 := fun h => s.2 (by simp [hs, h])
    refine iff_of_true ⟨1, ?_, ?_⟩ (List.cons_ne_nil b l)
    · show Except.map _ (if b ≠ 0 then Except.ok true else _) = _
      rw [if_pos hb]
      rfl
    · obtain ⟨k, rfl⟩ : ∃ k, n = k + 1 := ⟨n - 1, by omega⟩
      simp

/-- A second operand that is longer than the bound, or as long, is told apart.  A shorter one is not
told apart from what it begins. -/
theorem strncmpExact_of_nonempty (ht : t.val ≠ []) (hn : 1 ≤ n) :
    StrncmpExact s t n ↔ (t.val.length < n → t.val <+: s.val → t.val = s.val) := by
  have hexact : StrncmpExact s t n ↔
      (t.val.take n <+: s.val ↔ s.val.take n = t.val.take n) := by
    unfold StrncmpExact
    rw [kstrncmp_of_nonempty ht hn]
    split <;> simp [*]
  rw [hexact]
  rcases Nat.lt_or_ge t.val.length n with hshort | hlong
  · rw [List.take_of_length_le (Nat.le_of_lt hshort)]
    constructor
    · intro h _ hpre
      have htake := h.mp hpre
      -- what is cut off to `n` characters and has fewer is not cut off
      have hlen : s.val.length ≤ n := by
        have hcut := congrArg List.length htake
        rw [List.length_take] at hcut
        omega
      rw [← htake, List.take_of_length_le hlen]
    · intro h
      constructor
      · intro hpre
        rw [← h hshort hpre, List.take_of_length_le (Nat.le_of_lt hshort)]
      · intro htake
        rw [← htake]
        exact List.take_prefix n s.val
  · refine iff_of_true ?_ fun hshort => absurd hshort (Nat.not_lt.mpr hlong)
    have hlen : (t.val.take n).length = n := by
      rw [List.length_take]
      omega
    rw [List.prefix_iff_eq_take, hlen, eq_comm]

theorem strncmpExact_iff (hn : 1 ≤ n) :
    StrncmpExact s t n ↔ (t.val = [] → s.val ≠ []) ∧
      (t.val ≠ [] → t.val.length < n → t.val <+: s.val → t.val = s.val) := by
  by_cases ht : t.val = []
  · rw [strncmpExact_of_empty ht hn]
    exact ⟨fun h => ⟨fun _ => h, fun hne => absurd ht hne⟩, fun h => h.1 ht⟩
  · rw [strncmpExact_of_nonempty ht hn]
    exact ⟨fun h => ⟨fun he => absurd he ht, fun _ => h⟩, fun h => h.2 ht⟩

/-- Without a bound: the bound is behind both strings. -/
theorem strcmpExact_iff : StrcmpExact s t ↔ (t.val = [] → s.val ≠ []) ∧
    (t.val ≠ [] → t.val <+: s.val → t.val = s.val) := by
  let n := s.val.length + t.val.length + 1
  have hloop : kstrcmp s t = kstrncmp s t n := by
    have hlen : t.readable.length ≤ n := by
      rw [CString.readable, List.length_append, List.length_singleton]
      omega
    rw [kstrcmp, kstrncmp, doStringCompare, doStringNCompare, if_neg (by omega),
      compareLoop_eq_nCompareLoop hlen]
  have hs : s.val.take n = s.val := List.take_of_length_le (by omega)
  have ht : t.val.take n = t.val := List.take_of_length_le (by omega)
  have hexact : StrcmpExact s t ↔ StrncmpExact s t n := by
    rw [StrcmpExact, StrncmpExact, hloop, hs, ht]
  have hbound : t.val.length < n := by omega
  rw [hexact, strncmpExact_iff (by omega)]
  simp only [hbound, forall_const]

end Exact

/-- **`kstrcmp` and `kstrncmp` answer whether two strings are equal** unless both are empty, or the
second is a beginning of the first and not the whole of it (within the bound). -/
theorem compares_exact_iff (s t : CString) {n : Nat} (hn : 1 ≤ n) :
    (StrcmpExact s t ↔ (t.val = [] → s.val ≠ []) ∧
        (t.val ≠ [] → t.val <+: s.val → t.val = s.val)) ∧
      (StrncmpExact s t n ↔ (t.val = [] → s.val ≠ []) ∧
        (t.val ≠ [] → t.val.length < n → t.val <+: s.val → t.val = s.val)) :=
  ⟨strcmpExact_iff, strncmpExact_iff hn⟩

/-- `"a"` and `"ab"`, in this order, are told apart. -/
theorem compares_exact_iff_in_order :
    StrcmpExact ⟨[97], by decide⟩ ⟨[97, 98], by decide⟩ ∧
      StrncmpExact ⟨[97], by decide⟩ ⟨[97, 98], by decide⟩ 5 := by
  obtain ⟨hcmp, hncmp⟩ :=
    compares_exact_iff ⟨[97], by decide⟩ ⟨[97, 98], by decide⟩ (n := 5) (by decide)
  exact ⟨hcmp.mpr (by decide), hncmp.mpr (by decide)⟩

/-- In the other order they are equal, and two empty strings are read beyond their ends. -/
theorem beginning_is_taken_for_whole :
    ¬ StrcmpExact ⟨[97, 98], by decide⟩ ⟨[97], by decide⟩ ∧
      ¬ StrncmpExact ⟨[97, 98], by decide⟩ ⟨[97], by decide⟩ 5 ∧
      kstrcmp ⟨[97, 98], by decide⟩ ⟨[97], by decide⟩ = .ok 0 ∧
      kstrcmp ⟨[97], by decide⟩ ⟨[97, 98], by decide⟩ = .ok 1 ∧
      kstrcmp ⟨[], by decide⟩ ⟨[], by decide⟩ = .error .fault := by
  refine ⟨?_, ?_, rfl, rfl, rfl⟩
  · rw [strcmpExact_iff]
    decide
  · rw [strncmpExact_iff (by decide)]
    decide

end HeavenFox.Common
