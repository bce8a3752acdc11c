/-
# HeavenFox.Logic.Bytes -- byte strings in a memory

A small library with nothing of the kernel in it: a list of bytes that lies at an
address of a memory, a C string (a list without a zero byte, followed by one), a
32-bit word in big-endian order, and what it takes for two memories to agree on a
range of addresses.  A run of stores is described by the ranges it may have
changed, so every fact about a memory is carried over by an agreement.
-/
import HeavenFox.Logic.Memory32

namespace HeavenFox.Logic

/-! ## Agreement of memories -/

/-- `m'` has the bytes of `m` from `lo` on, below `hi`. -/
def AgreeOn (m m' : Mem) (lo hi : Nat) : Prop := ∀ x, lo ≤ x → x < hi → m' x = m x

theorem AgreeOn.mono {m m' : Mem} {lo hi lo' hi' : Nat} (h : AgreeOn m m' lo hi) (hlo : lo ≤ lo')
    (hhi : hi' ≤ hi) : AgreeOn m m' lo' hi' := fun x hx hx' => h x (by omega) (by omega)

theorem AgreeOn.load32 {m m' : Mem} {lo hi a : Nat} (h : AgreeOn m m' lo hi) (hlo : lo ≤ a)
    (hhi : a + 4 ≤ hi) : load32 m' a = load32 m a :=
  load32_congr fun x hx hx' => h x (by omega) (by omega)

/-- Every byte in which `m'` differs from `m` is in `W`. -/
def ChangedIn (W : Nat → Prop) (m m' : Mem) : Prop := ∀ x, ¬ W x → m' x = m x

theorem ChangedIn.refl (W : Nat → Prop) (m : Mem) : ChangedIn W m m := fun _ _ => rfl

theorem ChangedIn.trans {W : Nat → Prop} {m m' m'' : Mem} (h : ChangedIn W m m')
    (h' : ChangedIn W m' m'') : ChangedIn W m m'' := by
  intro x hx
  rw [h' x hx, h x hx]

theorem ChangedIn.mono {W W' : Nat → Prop} {m m' : Mem} (h : ChangedIn W m m')
    (hW : ∀ x, W x → W' x) : ChangedIn W' m m' := fun x hx => h x fun hw => hx (hW x hw)

theorem ChangedIn.agreeOn {W : Nat → Prop} {m m' : Mem} (h : ChangedIn W m m') {lo hi : Nat}
    (hW : ∀ x, lo ≤ x → x < hi → ¬ W x) : AgreeOn m m' lo hi :=
  fun x hlo hhi => h x (hW x hlo hhi)

/-- A word that is not written keeps its value. -/
theorem ChangedIn.load32 {W : Nat → Prop} {m m' : Mem} (h : ChangedIn W m m') {a : Nat}
    (hW : ∀ x, a ≤ x → x < a + 4 → ¬ W x) : load32 m' a = load32 m a :=
  (h.agreeOn hW).load32 (Nat.le_refl a) (Nat.le_refl _)

theorem changedIn_store32 (m : Mem) (a v : Nat) :
    ChangedIn (fun x => a ≤ x ∧ x < a + 4) m (store32 m a v) :=
  fun _ hx => store32_of_outside (by omega)

/-! ## Facts that rest on some of the bytes -/

/-- `P` holds of `m`, and of every memory that has the bytes of `m` in `K`. -/
def RestsOn (K : Nat → Prop) (m : Mem) (P : Mem → Prop) : Prop :=
  ∀ m', (∀ x, K x → m' x = m x) → P m'

namespace RestsOn

variable {K K' : Nat → Prop} {m m' : Mem} {P Q : Mem → Prop}

theorem holds (h : RestsOn K m P) : P m := h m fun _ _ => rfl

/-- **The frame rule.**  What rests on bytes that are not written still holds. -/
theorem frame {W : Nat → Prop} (h : RestsOn K m P) (hm : ChangedIn W m m')
    (hK : ∀ x, K x → ¬ W x) : RestsOn K m' P := by
  intro m'' hm''
  refine h m'' fun x hx => ?_
  rw [hm'' x hx, hm x (hK x hx)]

end RestsOn

/-! ## Bytes at an address -/

/-- The bytes `l` lie at `a`. -/
def BytesAt (m : Mem) : Nat → List UInt8 → Prop
  | _, [] => True
  | a, b :: l => m a = b ∧ BytesAt m (a + 1) l

instance decidableBytesAt (m : Mem) : (a : Nat) → (l : List UInt8) → Decidable (BytesAt m a l)
  | _, [] => .isTrue trivial
  | a, b :: l =>
    haveI := decidableBytesAt m (a + 1) l
    inferInstanceAs (Decidable (m a = b ∧ BytesAt m (a + 1) l))

theorem bytesAt_append {m : Mem} {l l' : List UInt8} {a : Nat} :
    BytesAt m a (l ++ l') ↔ BytesAt m a l ∧ BytesAt m (a + l.length) l' := by
  induction l generalizing a with
  | nil => simp [BytesAt]
  | cons b l ih =>
    have hlen : a + (l.length + 1) = a + 1 + l.length := by omega
    simp only [List.cons_append, BytesAt, ih, List.length_cons, hlen, and_assoc]

theorem bytesAt_snoc {m : Mem} {a : Nat} {l : List UInt8} {c : UInt8} :
    BytesAt m a (l ++ [c]) ↔ BytesAt m a l ∧ m (a + l.length) = c := by
  rw [bytesAt_append]
  exact and_congr_right fun _ => ⟨fun h => h.1, fun h => ⟨h, trivial⟩⟩

theorem BytesAt.congr {m m' : Mem} {a : Nat} {l : List UInt8} (h : BytesAt m a l)
    (hm : AgreeOn m m' a (a + l.length)) : BytesAt m' a l := by
  induction l generalizing a with
  | nil => trivial
  | cons b l ih =>
    rw [List.length_cons] at hm
    refine ⟨(hm a (by omega) (by omega)).trans h.1, ih h.2 (hm.mono (by omega) (by omega))⟩

/-- Bytes at an address, one at a time. -/
theorem BytesAt.get {m : Mem} {a : Nat} {l : List UInt8} (h : BytesAt m a l) {i : Nat}
    (hi : i < l.length) : m (a + i) = l[i] := by
  induction l generalizing a i with
  | nil => exact absurd hi (Nat.not_lt_zero i)
  | cons b l ih =>
    cases i with
    | zero => exact h.1
    | succ i =>
      have hstep : a + (i + 1) = a + 1 + i := by omega
      rw [hstep, List.getElem_cons_succ]
      exact ih h.2 (by simpa using hi)

/-- Two lists of one length at one address are equal. -/
theorem BytesAt.inj {m : Mem} {a : Nat} {l l' : List UInt8} (h : BytesAt m a l)
    (h' : BytesAt m a l') (hlen : l.length = l'.length) : l = l' := by
  refine List.ext_getElem hlen fun i hi hi' => ?_
  rw [← h.get hi, ← h'.get hi']

/-- A word of zeros. -/
theorem load32_zero {m : Mem} {a : Nat} (h : ∀ x, a ≤ x → x < a + 4 → m x = 0) :
    load32 m a = 0 := by
  simp [load32, h a (by omega) (by omega), h (a + 1) (by omega) (by omega),
    h (a + 2) (by omega) (by omega), h (a + 3) (by omega) (by omega)]

/-- Store the bytes one after another. -/
def storeBytes (m : Mem) (a : Nat) : List UInt8 → Mem
  | [] => m
  | b :: l => storeBytes (store8 m a b) (a + 1) l

theorem store8_of_ne {m : Mem} {a x : Nat} {v : UInt8} (h : x ≠ a) : store8 m a v x = m x :=
  if_neg h

theorem storeBytes_of_outside {m : Mem} {a x : Nat} {l : List UInt8}
    (h : x < a ∨ a + l.length ≤ x) : storeBytes m a l x = m x := by
  induction l generalizing m a with
  | nil => rfl
  | cons b l ih =>
    rw [List.length_cons] at h
    rw [storeBytes, ih (by omega), store8_of_ne (by omega)]

theorem bytesAt_storeBytes (m : Mem) (a : Nat) (l : List UInt8) :
    BytesAt (storeBytes m a l) a l := by
  induction l generalizing m a with
  | nil => trivial
  | cons b l ih =>
    refine ⟨?_, ih _ _⟩
    rw [storeBytes, storeBytes_of_outside (by omega)]
    exact if_pos rfl

theorem storeBytes_append (m : Mem) (a : Nat) (l l' : List UInt8) :
    storeBytes m a (l ++ l') = storeBytes (storeBytes m a l) (a + l.length) l' := by
  induction l generalizing m a with
  | nil => rfl
  | cons b l ih =>
    have hlen : a + (l.length + 1) = a + 1 + l.length := by omega
    simp only [List.cons_append, storeBytes, ih, List.length_cons, hlen]

/-- A memory that differs by bytes at an address is the one into which they have been stored. -/
theorem eq_storeBytes {m m' : Mem} {a : Nat} {l : List UInt8} (h : BytesAt m' a l)
    (hout : ∀ x, x < a ∨ a + l.length ≤ x → m' x = m x) : m' = storeBytes m a l := by
  funext x
  by_cases hx : x < a ∨ a + l.length ≤ x
  · rw [hout x hx, storeBytes_of_outside hx]
  · obtain ⟨i, rfl⟩ : ∃ i, x = a + i := ⟨x - a, by omega⟩
    have hi : i < l.length := by omega
    rw [h.get hi, (bytesAt_storeBytes m a l).get hi]

/-- Storing the byte that is there changes nothing. -/
theorem store8_self {m : Mem} {a : Nat} {v : UInt8} (h : m a = v) : store8 m a v = m := by
  funext x
  by_cases hx : x = a
  · rw [hx, h, store8, if_pos rfl]
  · exact store8_of_ne hx

/-! ## C strings -/

/-- The string `l` lies at `a`, ended by a zero byte. -/
structure CStrAt (m : Mem) (a : Nat) (l : List UInt8) : Prop where
  bytes : BytesAt m a (l ++ [0])
  noZero : 0 ∉ l

instance (m : Mem) (a : Nat) (l : List UInt8) : Decidable (CStrAt m a l) :=
  decidable_of_iff (BytesAt m a (l ++ [0]) ∧ 0 ∉ l) ⟨fun h => ⟨h.1, h.2⟩, fun h => ⟨h.1, h.2⟩⟩

theorem CStrAt.congr {m m' : Mem} {a : Nat} {l : List UInt8} (h : CStrAt m a l)
    (hm : AgreeOn m m' a (a + l.length + 1)) : CStrAt m' a l where
  bytes := h.bytes.congr (hm.mono (Nat.le_refl a) (by simp; omega))
  noZero := h.noZero

theorem CStrAt.cons {m : Mem} {a : Nat} {b : UInt8} {l : List UInt8} (h : CStrAt m a (b :: l)) :
    m a = b ∧ b ≠ 0 ∧ CStrAt m (a + 1) l := by
  have hb := h.bytes
  rw [List.cons_append] at hb
  refine ⟨hb.1, ?_, hb.2, fun hmem => h.noZero (List.mem_cons_of_mem b hmem)⟩
  intro hzero
  exact h.noZero (hzero ▸ List.mem_cons_self)

theorem CStrAt.nil {m : Mem} {a : Nat} (h : CStrAt m a []) : m a = 0 := h.bytes.1

theorem CStrAt.head_eq {m : Mem} {a : Nat} {l : List UInt8} {c : UInt8} (h : CStrAt m a l)
    (hc : c ≠ 0) : m a = c ↔ l.head? = some c := by
  cases l with
  | nil => simp [h.nil, hc.symm]
  | cons b l => simp [h.cons.1]

/-- Only one string lies at an address. -/
theorem CStrAt.unique {m : Mem} {a : Nat} {l l' : List UInt8} (h : CStrAt m a l)
    (h' : CStrAt m a l') : l = l' := by
  induction l generalizing a l' with
  | nil =>
    cases l' with
    | nil => rfl
    | cons b' l' =>
      obtain ⟨hb, hne, -⟩ := h'.cons
      exact absurd (hb.symm.trans h.nil) hne
  | cons b l ih =>
    obtain ⟨hb, hne, hl⟩ := h.cons
    cases l' with
    | nil => exact absurd (hb.symm.trans h'.nil) hne
    | cons b' l' =>
      obtain ⟨hb', -, hl'⟩ := h'.cons
      rw [ih hl hl', ← hb, ← hb']

/-! ## Big-endian words -/

/-- The word at `a`, most significant byte first. -/
def loadBe32 (m : Mem) (a : Nat) : Nat :=
  (m a).toNat * 2 ^ 24 + (m (a + 1)).toNat * 2 ^ 16 + (m (a + 2)).toNat * 2 ^ 8 +
    (m (a + 3)).toNat

/-- The four bytes of a word, most significant first. -/
def beBytes (n : Nat) : List UInt8 :=
  [UInt8.ofNat (n / 2 ^ 24), UInt8.ofNat (n / 2 ^ 16), UInt8.ofNat (n / 2 ^ 8), UInt8.ofNat n]

@[simp] theorem beBytes_length (n : Nat) : (beBytes n).length = 4 := rfl

theorem loadBe32_lt (m : Mem) (a : Nat) : loadBe32 m a < 2 ^ 32 := by
  unfold loadBe32
  have h0 := (m a).toNat_lt
  have h1 := (m (a + 1)).toNat_lt
  have h2 := (m (a + 2)).toNat_lt
  have h3 := (m (a + 3)).toNat_lt
  omega

theorem AgreeOn.loadBe32 {m m' : Mem} {lo hi a : Nat} (h : AgreeOn m m' lo hi) (hlo : lo ≤ a)
    (hhi : a + 4 ≤ hi) : loadBe32 m' a = loadBe32 m a := by
  simp only [Logic.loadBe32, h a (by omega) (by omega), h (a + 1) (by omega) (by omega),
    h (a + 2) (by omega) (by omega), h (a + 3) (by omega) (by omega)]

/-- **A word reads back from its bytes.** -/
theorem BytesAt.loadBe32 {m : Mem} {a n : Nat} (h : BytesAt m a (beBytes n)) (hn : n < 2 ^ 32) :
    loadBe32 m a = n := by
  obtain ⟨h0, h1, h2, h3, -⟩ := h
  simp only [Logic.loadBe32, h0, h1, h2, h3, UInt8.toNat_ofNat']
  omega

end HeavenFox.Logic
