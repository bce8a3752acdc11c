/-
# HeavenFox.Platform.OfStrings -- properties that are lists of strings

Three functions of `fwk_of_prop.c` read the strings of a property, one behind the other.
`fwk_of_property_read_string_index` begins at the first string for each index and adds up the
lengths of the strings before the one it looks at; `fwk_of_device_is_compatible` asks it for
one index after another; `fwk_of_property_match_string` goes on from string to string and
compares pointers.  All three agree with the list, but the last returns the number of a string
as a signed word.
-/
import HeavenFox.Logic.StringList
import HeavenFox.Platform.Of
import HeavenFox.Platform.OfQuery

namespace HeavenFox.Platform

open HeavenFox.Logic HeavenFox.Common

/-! ## Strings of a value -/

/-- The bytes of the value from `ptr` on. -/
def OfProperty.bytesFrom (prop : OfProperty) (ptr : Nat) : List UInt8 :=
  if prop.value ≤ ptr then prop.bytes.drop (ptr - prop.value) else []

/-- `strlen` of a string in the value. -/
def OfProperty.strlen (prop : OfProperty) (ptr : Nat) : Except Stop Nat :=
  (strlenIn (prop.bytesFrom ptr)).elim (.error .fault) .ok

/-- `strcmp(ptr, s) == 0` for a string in the value. -/
def OfProperty.strcmp (prop : OfProperty) (ptr : Nat) (s : List UInt8) : Except Stop Bool :=
  (strcmpIn (prop.bytesFrom ptr) s).elim (.error .fault) .ok

/-! ## The functions -/

/-- The loop of `fwk_of_property_read_string_index`; it leaves `iTotalLenth` and `ptr_value`. -/
def stringIndexLoop (prop : OfProperty) (index : Nat) :
    Nat → Nat → Nat → Nat → Except Stop (Nat × Nat)
  | 0, _, _, _ => .error .spins
  | rounds + 1, i, iTotalLenth, ptrValue =>
    if i ≤ index ∧ iTotalLenth < prop.bytes.length then do
      -- the first round has no string behind it: it only sets `ptr_value`
      let iStrLenth ← if ptrValue ≠ 0 then (prop.strlen ptrValue).map (· + 1) else pure 0
      let ptrValue := if ptrValue ≠ 0 then add32 ptrValue iStrLenth else prop.value
      stringIndexLoop prop index rounds (add32 i 1) (add32 iTotalLenth iStrLenth) ptrValue
    else .ok (iTotalLenth, ptrValue)

/-- `fwk_of_property_read_string_index`: what it returns, and what is in `*ptr_string` after it. -/
def fwkOfPropertyReadStringIndex (t : DeviceTree) (sprtNode : Option ObjPtr)
    (ptrName : List UInt8) (index ptrString : Nat) : Except Stop (Int × Nat) :=
  match (fwkOfFindProperty t sprtNode ptrName).1 with
  | none => .ok (-erFault, 0)
  | some prop => do
    let (iTotalLenth, ptrValue) ← stringIndexLoop prop index walkRounds 0 0 0
    -- the lengths are those of the strings before the one at `ptr_value`
    if prop.bytes.length ≤ iTotalLenth then pure (-erMore, ptrString)
    else pure (erNormal, ptrValue)

/-- The loop of `fwk_of_device_is_compatible`. -/
def compatibleLoop (t : DeviceTree) (sprtNode : Option ObjPtr) (ptrCompat : List UInt8) :
    Nat → Nat → Nat → Except Stop Bool
  | 0, _, _ => .error .spins
  | rounds + 1, index, ptrInfo => do
    let (retval, ptrInfo) ←
      fwkOfPropertyReadStringIndex t sprtNode (cstring "compatible") index ptrInfo
    if retval ≠ 0 then pure false
    else
      match (fwkOfFindProperty t sprtNode (cstring "compatible")).1 with
      | none => .error .fault
      | some prop => do
        let same ← prop.strcmp ptrInfo ptrCompat
        if same then pure true
        else compatibleLoop t sprtNode ptrCompat rounds (add32 index 1) ptrInfo

/-- `fwk_of_device_is_compatible`, on the bytes of the property. -/
def DeviceTree.fwkOfDeviceIsCompatible (t : DeviceTree) (sprtNode : Option ObjPtr)
    (ptrCompat : List UInt8) : Except Stop Bool :=
  compatibleLoop t sprtNode ptrCompat walkRounds 0 0

/-- The loop of `fwk_of_property_match_string`. -/
def matchStringLoop (prop : OfProperty) (matchName : List UInt8) (ptrEnd : Nat) :
    Nat → Nat → Nat → Except Stop Int
  | 0, _, _ => .error .spins
  | rounds + 1, idx, str =>
    if str < ptrEnd then do
      let lenth := add32 (← prop.strlen str) 1
      -- `idx` is unsigned and is returned as a signed number
      if ptrEnd < add32 str lenth then pure (-erMore)
      else if ← prop.strcmp str matchName then pure (asInt32 idx)
      else matchStringLoop prop matchName ptrEnd rounds (add32 idx 1) (add32 str lenth)
    else .ok (-erCheckerr)

/-- `fwk_of_property_match_string`. -/
def fwkOfPropertyMatchString (t : DeviceTree) (sprtNode : Option ObjPtr)
    (listName matchName : List UInt8) : Except Stop Int :=
  match fwkOfFindProperty t sprtNode listName with
  | (none, _) => .ok (-erNotfound)
  | (some prop, size) =>
    if size = 0 then .ok (-erNotfound)
    else matchStringLoop prop matchName (add32 prop.value size) walkRounds 0 prop.value

/-! ## Values that are lists of strings -/

/-- The value is the strings, one behind the other. -/
structure OfProperty.Strings (prop : OfProperty) (ss : List (List UInt8)) : Prop where
  bytes : prop.bytes = stringList ss
  zero : ∀ s ∈ ss, 0 ∉ s

variable {t : DeviceTree} {sprtNode : Option ObjPtr} {name : List UInt8} {prop : OfProperty}
  {ss : List (List UInt8)} {s : List UInt8} {k : Nat}

namespace OfProperty.Strings

variable (h : prop.Strings ss)

include h

/-- A string takes a byte at least, so there are no more than a signed word can count. -/
theorem length_lt : ss.length < 2 ^ 31 := by
  have hlen := length_le_stringList ss
  rw [← h.bytes] at hlen
  exact Nat.lt_of_le_of_lt hlen prop.short

/-- Where the string `k` begins in memory. -/
theorem bytesFrom (hk : ss[k]? = some s) :
    prop.bytesFrom (prop.value + stringOffset ss k) =
      s ++ 0 :: stringList (ss.drop (k + 1)) := by
  rw [OfProperty.bytesFrom, if_pos (Nat.le_add_right _ _), Nat.add_sub_cancel_left, h.bytes,
    stringList_drop, drop_of_getElem? hk, stringList_cons]

theorem strlen (hk : ss[k]? = some s) :
    prop.strlen (prop.value + stringOffset ss k) = .ok s.length := by
  rw [OfProperty.strlen, h.bytesFrom hk, strlenIn_append (h.zero s (List.mem_of_getElem? hk))]
  rfl

theorem strcmp (hk : ss[k]? = some s) {s' : List UInt8} (hs' : 0 ∉ s') :
    prop.strcmp (prop.value + stringOffset ss k) s' = .ok (decide (s = s')) := by
  rw [OfProperty.strcmp, h.bytesFrom hk,
    strcmpIn_append (h.zero s (List.mem_of_getElem? hk)) hs']
  rfl

/-- A string of the list ends inside the value, and nothing wraps on the way. -/
theorem offset_le (hk : ss[k]? = some s) :
    stringOffset ss k + (s.length + 1) ≤ prop.bytes.length ∧
      prop.value + stringOffset ss k + (s.length + 1) < 2 ^ 32 := by
  have hle := stringOffset_lt hk
  rw [← h.bytes] at hle
  have := prop.place
  exact ⟨hle, by omega⟩

theorem offset_end (hk : ss.length ≤ k) : stringOffset ss k = prop.bytes.length := by
  rw [stringOffset_of_le hk, h.bytes]

end OfProperty.Strings

/-! ## Reading one of the strings -/

/-- The loop stands at the string `k`, up to the one that is asked for or the end of the list. -/
theorem stringIndexLoop_eq (h : prop.Strings ss) (index : Nat) (rounds : Nat)
    (hk : k ≤ min index ss.length) (hrounds : min index ss.length < k + rounds) :
    stringIndexLoop prop index rounds (k + 1) (stringOffset ss k)
        (prop.value + stringOffset ss k) =
      .ok (stringOffset ss (min index ss.length),
        prop.value + stringOffset ss (min index ss.length)) := by
  have hlen := h.length_lt
  have hplace := prop.place
  induction rounds generalizing k with
  | zero => omega
  | succ rounds ih =>
    rw [stringIndexLoop]
    by_cases hmore : k < min index ss.length
    · obtain ⟨s, hs⟩ : ∃ s, ss[k]? = some s := ⟨_, List.getElem?_eq_getElem (by omega)⟩
      obtain ⟨hin, hwrap⟩ := h.offset_le hs
      have hi : add32 (k + 1) 1 = k + 1 + 1 := add32_of_lt (by omega)
      have htotal : add32 (stringOffset ss k) (s.length + 1) = stringOffset ss (k + 1) := by
        rw [stringOffset_succ hs, add32_of_lt (by omega)]
      have hptr : add32 (prop.value + stringOffset ss k) (s.length + 1) =
          prop.value + stringOffset ss (k + 1) := by
        rw [stringOffset_succ hs, add32_of_lt hwrap, Nat.add_assoc]
      have hvalid : prop.value + stringOffset ss k ≠ 0 := by omega
      rw [if_pos ⟨by omega, by omega⟩, if_pos hvalid, h.strlen hs]
      simp only [Except.map, bind, Except.bind, if_pos hvalid, hi, htotal, hptr]
      exact ih (by omega) (by omega)
    · -- at the string that is asked for, or behind the last
      obtain rfl : k = min index ss.length := by omega
      rw [if_neg]
      rintro ⟨hi, hin⟩
      rw [show min index ss.length = ss.length by omega, h.offset_end (Nat.le_refl _)] at hin
      exact Nat.lt_irrefl _ hin

/-- **`fwk_of_property_read_string_index`** gives the string at its place, if the list is so long. -/
theorem fwkOfPropertyReadStringIndex_eq (hprop : t.prop sprtNode name = some prop)
    (h : prop.Strings ss) (index ptrString : Nat) :
    fwkOfPropertyReadStringIndex t sprtNode name index ptrString =
      .ok (if index < ss.length then (erNormal, prop.value + stringOffset ss index)
        else (-erMore, ptrString)) := by
  have hfind : (fwkOfFindProperty t sprtNode name).1 = some prop := hprop
  have hlen := h.length_lt
  obtain ⟨rounds, hrounds⟩ : ∃ rounds, walkRounds = rounds + 1 := ⟨walkRounds - 1, rfl⟩
  have hmany : ss.length < rounds := by
    unfold walkRounds at hrounds
    omega
  simp only [fwkOfPropertyReadStringIndex, hfind, hrounds, stringIndexLoop]
  cases hss : ss with
  | nil =>
    have hempty : prop.bytes.length = 0 := by simp [h.bytes, hss, stringList]
    simp [hempty, bind, Except.bind]
    rfl
  | cons s₀ rest =>
    -- after the first round the loop stands at the first string
    rw [← hss]
    have hpos : 0 < prop.bytes.length := by
      have := length_le_stringList ss
      rw [← h.bytes, hss] at this
      simp at this
      omega
    have hloop := stringIndexLoop_eq (k := 0) h index rounds (by omega) (by omega)
    simp only [stringOffset_zero, Nat.add_zero, Nat.zero_add] at hloop
    have hone : add32 0 1 = 1 := by decide
    have hzero : add32 0 0 = 0 := by decide
    rw [if_pos ⟨Nat.zero_le _, hpos⟩]
    simp only [ne_eq, not_true_eq_false, if_false, hone, hzero, hloop, bind, Except.bind, pure,
      Except.pure]
    by_cases hindex : index < ss.length
    · have hin := (h.offset_le (List.getElem?_eq_getElem hindex)).1
      rw [Nat.min_eq_left hindex.le, if_neg (by omega), if_pos hindex]
    · rw [Nat.min_eq_right (by omega), h.offset_end (Nat.le_refl _), if_pos (Nat.le_refl _),
        if_neg hindex]

/-! ## Comparing -/

/-- The loop of `fwk_of_device_is_compatible` goes on from the string `k`. -/
theorem compatibleLoop_eq (hprop : t.prop sprtNode (cstring "compatible") = some prop)
    (h : prop.Strings ss) (hs : 0 ∉ s) {rounds : Nat} (ptrInfo : Nat) (hk : k ≤ ss.length)
    (hrounds : ss.length < k + rounds) :
    compatibleLoop t sprtNode s rounds k ptrInfo = .ok (decide (s ∈ ss.drop k)) := by
  have hfind : (fwkOfFindProperty t sprtNode (cstring "compatible")).1 = some prop := hprop
  have hlen := h.length_lt
  induction rounds generalizing k ptrInfo with
  | zero => omega
  | succ rounds ih =>
    simp only [compatibleLoop, fwkOfPropertyReadStringIndex_eq hprop h, hfind, bind, Except.bind,
      pure, Except.pure]
    by_cases hmore : k < ss.length
    · have hget : ss[k]? = some ss[k] := List.getElem?_eq_getElem hmore
      have hi : add32 k 1 = k + 1 := add32_of_lt (by omega)
      rw [if_pos hmore]
      simp only [ne_eq, not_true_eq_false, if_false, h.strcmp hget hs, hi]
      rw [drop_of_getElem? hget, ih _ (by omega) (by omega)]
      by_cases hsame : ss[k] = s
      · simp [hsame]
      · simp only [hsame, decide_false, Bool.false_eq_true, if_false, List.mem_cons,
          Ne.symm hsame, false_or]
    · -- behind the last string the read fails
      rw [if_neg hmore, List.drop_eq_nil_of_le (by omega)]
      rfl

/-- **`fwk_of_device_is_compatible`** is true of the strings of the list. -/
theorem fwkOfDeviceIsCompatible_eq (hprop : t.prop sprtNode (cstring "compatible") = some prop)
    (h : prop.Strings ss) (hs : 0 ∉ s) :
    t.fwkOfDeviceIsCompatible sprtNode s = .ok (decide (s ∈ ss)) := by
  have hlen := h.length_lt
  exact compatibleLoop_eq (k := 0) hprop h hs 0 (Nat.zero_le _) (by unfold walkRounds; omega)

/-- The loop of `fwk_of_property_match_string` goes on from the string `k`. -/
theorem matchStringLoop_eq (h : prop.Strings ss) (hs : 0 ∉ s) (rounds : Nat)
    (hk : k ≤ ss.length) (hrounds : ss.length < k + rounds) :
    matchStringLoop prop s (prop.value + prop.bytes.length) rounds k
        (prop.value + stringOffset ss k) =
      .ok (if s ∈ ss.drop k then asInt32 (k + (ss.drop k).idxOf s) else -erCheckerr) := by
  have hlen := h.length_lt
  induction rounds generalizing k with
  | zero => omega
  | succ rounds ih =>
    rw [matchStringLoop]
    by_cases hmore : k < ss.length
    · have hget : ss[k]? = some ss[k] := List.getElem?_eq_getElem hmore
      obtain ⟨hin, hwrap⟩ := h.offset_le hget
      have hi : add32 k 1 = k + 1 := add32_of_lt (by omega)
      have hlenth : add32 ss[k].length 1 = ss[k].length + 1 := add32_of_lt (by omega)
      have hptr : add32 (prop.value + stringOffset ss k) (ss[k].length + 1) =
          prop.value + stringOffset ss (k + 1) := by
        rw [stringOffset_succ hget, add32_of_lt hwrap, Nat.add_assoc]
      have hend : ¬ prop.value + prop.bytes.length < prop.value + stringOffset ss (k + 1) := by
        rw [stringOffset_succ hget]
        omega
      rw [if_pos (by omega), h.strlen hget]
      simp only [bind, Except.bind, hlenth, hptr, if_neg hend, h.strcmp hget hs, hi, pure,
        Except.pure]
      rw [drop_of_getElem? hget, ih (by omega) (by omega)]
      by_cases hsame : ss[k] = s
      · simp [hsame]
      · simp only [hsame, decide_false, Bool.false_eq_true, if_false, List.mem_cons,
          Ne.symm hsame, false_or, List.idxOf_cons_ne _ hsame, Nat.add_assoc,
          Nat.add_comm 1]
    · rw [if_neg (by rw [h.offset_end (by omega)]; omega), List.drop_eq_nil_of_le (by omega)]
      rfl

/-- **`fwk_of_property_match_string`** gives the number of the first string that is equal, as a
signed word. -/
theorem fwkOfPropertyMatchString_eq (hprop : t.prop sprtNode name = some prop)
    (h : prop.Strings ss) (hs : 0 ∉ s) :
    fwkOfPropertyMatchString t sprtNode name s =
      .ok (if s ∈ ss then asInt32 (ss.idxOf s)
        else if ss = [] then -erNotfound else -erCheckerr) := by
  have hfind := fwkOfFindProperty_some hprop
  have hplace := prop.place
  have hend : add32 prop.value prop.bytes.length = prop.value + prop.bytes.length :=
    add32_of_lt (by omega)
  have hlen := h.length_lt
  simp only [fwkOfPropertyMatchString, hfind, hend]
  cases hss : ss with
  | nil => simp [h.bytes, hss, stringList]
  | cons s₀ rest =>
    have hpos : prop.bytes.length ≠ 0 := by
      have hle := length_le_stringList ss
      rw [← h.bytes, hss, List.length_cons] at hle
      omega
    have hloop := matchStringLoop_eq (k := 0) h hs walkRounds (Nat.zero_le _)
      (by unfold walkRounds; omega)
    rw [if_neg hpos, if_neg (List.cons_ne_nil s₀ rest), ← hss]
    simpa [stringOffset_zero] using hloop

/-! ## The three together -/

/-- Asking for one string after another: as many as there are, and each is found. -/
def IndexReads (t : DeviceTree) (sprtNode : Option ObjPtr) (name : List UInt8) (prop : OfProperty)
    (ss : List (List UInt8)) : Prop :=
  ∀ index ptrString, ∃ retval ptr,
    fwkOfPropertyReadStringIndex t sprtNode name index ptrString = .ok (retval, ptr) ∧
      (retval = erNormal ↔ index < ss.length) ∧
      ∀ s, ss[index]? = some s → ∃ rest, prop.bytesFrom ptr = s ++ 0 :: rest

/-- Asking for the number of a string: that of the first that is equal, or a negative code. -/
def MatchReads (t : DeviceTree) (sprtNode : Option ObjPtr) (name : List UInt8)
    (ss : List (List UInt8)) (s : List UInt8) : Prop :=
  ∃ retval, fwkOfPropertyMatchString t sprtNode name s = .ok retval ∧
    (s ∈ ss → retval = ss.idxOf s) ∧ (s ∉ ss → retval < 0)

/-- **Lists of strings.**  For every property that is a list of strings, reading by number is right,
looking for a string gives the number of the first that is equal, and so is the test of compatibility
right. -/
theorem string_list_reads (hprop : t.prop sprtNode name = some prop) (h : prop.Strings ss)
    (hs : 0 ∉ s) :
    IndexReads t sprtNode name prop ss ∧ MatchReads t sprtNode name ss s ∧
      (name = cstring "compatible" →
        ∃ same, t.fwkOfDeviceIsCompatible sprtNode s = .ok same ∧ (same = true ↔ s ∈ ss)) := by
  refine ⟨fun index ptrString => ?_, ?_, ?_⟩
  · rw [fwkOfPropertyReadStringIndex_eq hprop h]
    by_cases hin : index < ss.length
    · rw [if_pos hin]
      exact ⟨_, _, rfl, by simp [hin], fun s hs' => ⟨_, h.bytesFrom hs'⟩⟩
    · rw [if_neg hin]
      refine ⟨_, _, rfl, by simp [hin], fun s hs' => ?_⟩
      rw [List.getElem?_eq_none (Nat.le_of_not_lt hin)] at hs'
      cases hs'
  · rw [MatchReads, fwkOfPropertyMatchString_eq hprop h hs]
    by_cases hin : s ∈ ss
    · have hlt : ss.idxOf s < 2 ^ 31 :=
        Nat.lt_trans (List.idxOf_lt_length_of_mem hin) h.length_lt
      have hvalue : asInt32 (ss.idxOf s) = ss.idxOf s := (asInt32_eq_iff (by omega)).mpr hlt
      exact ⟨_, rfl, fun _ => by rw [if_pos hin, hvalue], fun hnot => absurd hin hnot⟩
    · have hneg : (if ss = [] then -erNotfound else -erCheckerr) < (0 : Int) := by
        split <;> decide
      exact ⟨_, rfl, fun hmem => absurd hmem hin, fun _ => by rwa [if_neg hin]⟩
  · rintro rfl
    exact ⟨_, fwkOfDeviceIsCompatible_eq hprop h hs, decide_eq_true_iff⟩

/-- A tree of one node, with one property. -/
def listTree (prop : OfProperty) : DeviceTree where
  allNodes := [⟨0x63000, by decide⟩]
  node := fun _ =>
    { fullName := cstring "/", phandle := 0, parent := none, properties := [prop] }
  nodup := by decide
  above := by
    intro n hn p hp
    cases hp

theorem listTree_prop (prop : OfProperty) :
    (listTree prop).prop (some ⟨0x63000, by decide⟩) prop.name = some prop := by
  simp [DeviceTree.prop, fwkOfFindProperty, listTree]

/-- A property of three strings, one of them empty. -/
def threeStringsProp : OfProperty where
  name := cstring "compatible"
  value := 0x2000
  bytes := [97, 0, 0, 98, 0]
  place := by decide
  short := by decide

/-- The last of three strings is found. -/
theorem string_list_reads_third :
    IndexReads (listTree threeStringsProp) (some ⟨0x63000, by decide⟩) (cstring "compatible")
        threeStringsProp [[97], [], [98]] ∧
      MatchReads (listTree threeStringsProp) (some ⟨0x63000, by decide⟩) (cstring "compatible")
        [[97], [], [98]] [98] ∧
      ∃ same, (listTree threeStringsProp).fwkOfDeviceIsCompatible (some ⟨0x63000, by decide⟩) [98] =
        .ok same ∧ (same = true ↔ [98] ∈ ([[97], [], [98]] : List (List UInt8))) := by
  have hstrings : threeStringsProp.Strings [[97], [], [98]] := ⟨by decide, by decide⟩
  obtain ⟨hindex, hmatch, hcompat⟩ :=
    string_list_reads (s := [98]) (listTree_prop threeStringsProp) hstrings (by decide)
  exact ⟨hindex, hmatch, hcompat rfl⟩

end HeavenFox.Platform
