/-
# HeavenFox.Logic.StringList -- strings behind one another

A small library with nothing of the kernel in it.  A string in memory is ended by a zero; the
functions that read one get the bytes from its first one on, as many as there are, and fail if
they run out of them.  `stringList` puts strings behind one another, each with its zero, and
`stringOffset` is where one of them begins.
-/
import Mathlib.Data.List.Basic

namespace HeavenFox.Logic

/-- The length of the string that begins the bytes. -/
def strlenIn : List UInt8 → Option Nat
  | [] => none
  | b :: rest => if b = 0 then some 0 else (strlenIn rest).map (· + 1)

/-- The string that begins the bytes is `s`. -/
def strcmpIn : List UInt8 → List UInt8 → Option Bool
  | [], _ => none
  | b :: _, [] => some (b = 0)
  | b :: rest, c :: s => if b = c then strcmpIn rest s else some false

/-- Strings with their zeros. -/
def stringList (ss : List (List UInt8)) : List UInt8 := ss.flatMap (· ++ [0])

/-- The strings that the bytes are cut into by their zeros. -/
def stringsIn : List UInt8 → List (List UInt8)
  | [] => []
  | b :: rest =>
    if b = 0 then [] :: stringsIn rest
    else
      match stringsIn rest with
      | [] => []
      | s :: ss => (b :: s) :: ss

/-- Where a string of the list begins. -/
def stringOffset (ss : List (List UInt8)) (k : Nat) : Nat := (stringList (ss.take k)).length

variable {s s' : List UInt8} {ss : List (List UInt8)} {k : Nat}

theorem strlenIn_append (h : 0 ∉ s) (rest : List UInt8) :
    strlenIn (s ++ 0 :: rest) = some s.length := by
  induction s with
  | nil => rfl
  | cons b s ih =>
    obtain ⟨hb, hs⟩ : 0 ≠ b ∧ 0 ∉ s := by simpa using h
    rw [List.cons_append, strlenIn, if_neg (Ne.symm hb), ih hs]
    rfl

theorem strcmpIn_append (h : 0 ∉ s) (h' : 0 ∉ s') (rest : List UInt8) :
    strcmpIn (s ++ 0 :: rest) s' = some (decide (s = s')) := by
  induction s generalizing s' with
  | nil =>
    cases s' with
    | nil => rfl
    | cons c s' =>
      obtain ⟨hc, -⟩ : 0 ≠ c ∧ 0 ∉ s' := by simpa using h'
      rw [List.nil_append, strcmpIn, if_neg hc]
      simp
  | cons b s ih =>
    obtain ⟨hb, hs⟩ : 0 ≠ b ∧ 0 ∉ s := by simpa using h
    cases s' with
    | nil => simp [strcmpIn, Ne.symm hb]
    | cons c s' =>
      obtain ⟨-, hs'⟩ : 0 ≠ c ∧ 0 ∉ s' := by simpa using h'
      rw [List.cons_append, strcmpIn, ih hs hs']
      by_cases hbc : b = c
      · simp [hbc]
      · simp [hbc]

theorem stringList_cons (s : List UInt8) (ss : List (List UInt8)) :
    stringList (s :: ss) = s ++ 0 :: stringList ss := by
  simp [stringList]

theorem stringList_append (ss ss' : List (List UInt8)) :
    stringList (ss ++ ss') = stringList ss ++ stringList ss' := List.flatMap_append

theorem stringsIn_append (h : 0 ∉ s) (rest : List UInt8) :
    stringsIn (s ++ 0 :: rest) = s :: stringsIn rest := by
  induction s with
  | nil => rfl
  | cons b s ih =>
    obtain ⟨hb, hs⟩ : 0 ≠ b ∧ 0 ∉ s := by simpa using h
    rw [List.cons_append, stringsIn, if_neg (Ne.symm hb), ih hs]

/-- Cutting gives the strings back. -/
theorem stringsIn_stringList (h : ∀ s ∈ ss, 0 ∉ s) : stringsIn (stringList ss) = ss := by
  induction ss with
  | nil => rfl
  | cons s ss ih =>
    rw [stringList_cons, stringsIn_append (h s (List.mem_cons_self ..)),
      ih fun s' hs' => h s' (List.mem_cons_of_mem s hs')]

/-- The bytes from a string on. -/
theorem stringList_drop (ss : List (List UInt8)) (k : Nat) :
    (stringList ss).drop (stringOffset ss k) = stringList (ss.drop k) := by
  conv_lhs => rw [← List.take_append_drop k ss, stringList_append]
  rw [stringOffset, List.take_append_drop, List.drop_left]

theorem stringOffset_zero (ss : List (List UInt8)) : stringOffset ss 0 = 0 := rfl

/-- The next string begins behind the zero of this one. -/
theorem stringOffset_succ (h : ss[k]? = some s) :
    stringOffset ss (k + 1) = stringOffset ss k + (s.length + 1) := by
  rw [stringOffset, List.take_add_one, h, stringList_append, List.length_append, stringOffset]
  simp [stringList]

theorem stringOffset_of_le (h : ss.length ≤ k) : stringOffset ss k = (stringList ss).length := by
  rw [stringOffset, List.take_of_length_le h]

/-- A string of the list begins inside it. -/
theorem stringOffset_lt (h : ss[k]? = some s) :
    stringOffset ss k + (s.length + 1) ≤ (stringList ss).length := by
  rw [← stringOffset_succ h, stringOffset]
  conv_rhs => rw [← List.take_append_drop (k + 1) ss, stringList_append, List.length_append]
  exact Nat.le_add_right _ _

/-- Every string has a byte at least. -/
theorem length_le_stringList (ss : List (List UInt8)) : ss.length ≤ (stringList ss).length := by
  induction ss with
  | nil => exact Nat.le_refl 0
  | cons s ss ih =>
    rw [stringList_cons]
    simp only [List.length_cons, List.length_append]
    omega

theorem drop_of_getElem? (h : ss[k]? = some s) : ss.drop k = s :: ss.drop (k + 1) := by
  obtain ⟨hk, rfl⟩ := List.getElem?_eq_some_iff.mp h
  exact List.drop_eq_getElem_cons hk

end HeavenFox.Logic
