/-
# HeavenFox.Kernel.MailboxNames -- the names under which mailboxes are registered

`mailbox_init` puts the name into an array on its stack, asks `mailbox_find` whether it
is taken, and copies it into the mailbox object.  Both copies are `kstrlcpy`, which
writes a terminator only where it cuts a string off.  The array is zeroed before, the
object is not: `mailbox_create` takes it from `kmalloc`.  So what lies behind the name in
the object becomes part of the name unless it starts with a zero byte, and a name that
does not fit in the array is registered shortened.

Where neither happens (`Fits`), a registered mailbox is found under its name, and no two
have the same one, over every run (`names_kept_of_fits`).
-/
import HeavenFox.Common.StringCalls
import HeavenFox.Kernel.MailboxRegistry

namespace HeavenFox.Kernel

open HeavenFox.Common HeavenFox.Logic

/-! ## The name -/

/-- `"mailbox-tid-%d"` -/
def mailboxTidFmt : CString :=
  ⟨[109, 97, 105, 108, 98, 111, 120, 45, 116, 105, 100, 45, 37, 100], by decide⟩

/-- The string at an address, whose terminator has to be among the first `size` bytes. -/
def stringAt (m : Mem) : Nat → Nat → Except Stop CString
  | 0, _ => .error .fault
  | size + 1, a =>
    if h : m a = 0 then .ok ⟨[], List.not_mem_nil⟩
    else (stringAt m size (a + 1)).map fun s => ⟨m a :: s.val, by simp [s.2, Ne.symm h]⟩

/-- The string that `mailbox_init` puts into its array `label`; `stack` is the stack before. -/
def mailboxLabel (stack : Mem) (label : StackLabel) (tid : UInt32) (name : Option CString) :
    Except Stop CString := do
  let m := storeBytes stack label.val (List.replicate mailboxNameLen 0)
  let m ←
    match name.filter fun name => name.val ≠ [] with
    | some name => pure (doStringNCopySafe m label.val name mailboxNameLen).2
    | none => do
      let (_, m) ← sprintk m label.val mailboxTidFmt [.word tid]
      pure m
  stringAt m mailboxNameLen label.val

/-! ## The calls -/

namespace Registry

/-- `mailbox_init`. -/
def mailboxInit (rounds : Nat) (stack : Mem) (label : StackLabel) (s : Registry) (b : ObjPtr)
    (tid : UInt32) (name : Option CString) : Except Stop (Registry × Int) := do
  let text ← mailboxLabel stack label tid name
  let sprtBox ← s.mailboxFind rounds (some text)
  if sprtBox.isSome then pure (s, -erExisted)
  else
    let m := store32 (s.obj b) mailboxNumMails 0
    let m := store32 m mailboxTid tid.toNat
    let m := (doStringNCopySafe m 0 text mailboxNameLen).2
    let links := initListHead s.links (.boxMail b)
    let m := store32 m mailboxSgrtLock 0
    let s ← mailboxInsert rounds ⟨links, Function.update s.obj b m⟩ b
    pure (s, erNormal)

/-- `mailbox_deinit`. -/
def mailboxDeinit (s : Registry) (b : ObjPtr) : Registry :=
  ⟨listHeadDel s.links (node b),
    Function.update s.obj b (store32 (s.obj b) mailboxSgrtLock 0)⟩

/-- `mailbox_create`, where `kmalloc` returns `ptr`. -/
def mailboxCreate (rounds : Nat) (stack : Mem) (label : StackLabel) (s : Registry) (ptr : Nat)
    (tid : UInt32) (name : Option CString) : Except Stop (Registry × Nat) :=
  if h : isValid ptr = true then do
    let (s, retval) ← s.mailboxInit rounds stack label ⟨ptr, h⟩ tid name
    pure (s, if retval ≠ 0 then asUint32 (-erFaild) else ptr)
  else .ok (s, ptr)

/-- `mailbox_destroy`. -/
def mailboxDestroy (s : Registry) (sprtMb : Option ObjPtr) : Registry :=
  match sprtMb with
  | none => s
  | some b => s.mailboxDeinit b

end Registry

/-! ## Strings in memory -/

section Strings

variable {m : Mem} {a p size n : Nat} {l : List UInt8} {src : CString}

theorem strEqualAt_iff (hl : 0 ∉ l) : strEqualAt m a l = true ↔ CStrAt m a l := by
  induction l generalizing a with
  | nil =>
    rw [strEqualAt, decide_eq_true_eq]
    exact ⟨fun h => ⟨⟨h, trivial⟩, hl⟩, CStrAt.nil⟩
  | cons ch l ih =>
    rw [strEqualAt, Bool.and_eq_true, decide_eq_true_eq, ih fun h => hl (List.mem_cons_of_mem ch h)]
    constructor
    · intro h
      exact ⟨⟨h.1, h.2.bytes⟩, hl⟩
    · intro h
      exact ⟨h.cons.1, h.cons.2.2⟩

/-- A string that is shorter than the bound is read back. -/
theorem stringAt_eq (h : CStrAt m a l) (hl : l.length < size) :
    stringAt m size a = .ok ⟨l, h.noZero⟩ := by
  induction l generalizing a size with
  | nil =>
    obtain ⟨n, rfl⟩ : ∃ n, size = n + 1 := ⟨size - 1, by simp at hl; omega⟩
    rw [stringAt, dif_pos h.nil]
  | cons b l ih =>
    obtain ⟨n, rfl⟩ : ∃ n, size = n + 1 := ⟨size - 1, by simp at hl; omega⟩
    obtain ⟨hb, hne, hrest⟩ := h.cons
    rw [stringAt, dif_neg (by rw [hb]; exact hne), ih hrest (by simpa using hl)]
    simp only [Except.map, hb]

/-- `kstrlcpy` over zeros: what is copied is ended, whether it was cut off or not. -/
theorem doStringNCopySafe_zeroed (hzero : ∀ i, i ≤ n → m (a + i) = 0) (src : CString) :
    CStrAt (doStringNCopySafe m a src (n + 1)).2 a (src.val.take n) := by
  show CStrAt (copySafeLoop src.val (n + 1) m a) a _
  rcases Nat.lt_or_ge n src.val.length with hcut | hfits
  · rw [copySafeLoop_cut hcut]
    exact ⟨bytesAt_storeBytes _ _ _, fun h => src.2 (List.mem_of_mem_take h)⟩
  · rw [copySafeLoop_fits (Nat.lt_succ_of_le hfits), List.take_of_length_le hfits]
    exact (cStrAt_storeBytes_iff src.2).mpr (hzero _ hfits)

end Strings

/-! ## What is registered -/

/-- The text under which a mailbox is to be registered. -/
def labelText (tid : UInt32) (name : Option CString) : List UInt8 :=
  match name.filter fun name => name.val ≠ [] with
  | some name => name.val.take (mailboxNameLen - 1)
  | none => [109, 97, 105, 108, 98, 111, 120, 45, 116, 105, 100, 45] ++ decimal tid.toNat

section Label

variable {tid : UInt32} {name : Option CString}

theorem render_mailboxTidFmt (tid : UInt32) :
    render mailboxTidFmt [.word tid] =
      some ([109, 97, 105, 108, 98, 111, 120, 45, 116, 105, 100, 45] ++ decimal tid.toNat, []) := by
  simp [render, mailboxTidFmt, renderFrom, convText, Rendered.after, printLevelSoh]

theorem zero_notMem_decimal (n : Nat) : (0 : UInt8) ∉ decimal n := by
  intro h
  rw [decimal, List.mem_reverse, digitsLow, List.mem_map] at h
  obtain ⟨d, hd, hzero⟩ := h
  have hlt : d < 10 := by
    split at hd
    · rw [List.mem_singleton.mp hd]
      decide
    · exact Nat.digits_lt_base (by decide) hd
  have hnat := congrArg UInt8.toNat hzero
  rw [UInt8.toNat_ofNat'] at hnat
  simp at hnat
  omega

theorem labelText_length (tid : UInt32) (name : Option CString) :
    (labelText tid name).length < mailboxNameLen := by
  rw [labelText]
  split
  · rw [List.length_take, mailboxNameLen]
    omega
  · have hdigits : (digitsLow tid.toNat).length ≤ 9 + 1 :=
      digitsLow_length_le (Nat.lt_trans tid.toNat_lt (by decide))
    rw [List.length_append, decimal_length, mailboxNameLen]
    simp only [List.length_cons, List.length_nil]
    omega

theorem zero_notMem_labelText (tid : UInt32) (name : Option CString) :
    (0 : UInt8) ∉ labelText tid name := by
  rw [labelText]
  split
  · next name _ => exact fun h => name.2 (List.mem_of_mem_take h)
  · intro h
    rcases List.mem_append.mp h with h | h
    · exact absurd h (by decide)
    · exact zero_notMem_decimal _ h

/-- A name that fits is not cut off. -/
theorem labelText_of_fits {n : CString} (hn : n.val ≠ []) (hlen : n.val.length < mailboxNameLen) :
    labelText tid (some n) = n.val := by
  rw [labelText, Option.filter_some, if_pos (decide_eq_true hn)]
  exact List.take_of_length_le (Nat.le_pred_of_lt hlen)

/-- `sprintk` of the identifier ends the text itself. -/
theorem sprintk_label (m : Mem) (label : StackLabel) (tid : UInt32) :
    ∃ m', sprintk m label.val mailboxTidFmt [.word tid] =
        .ok ((labelText tid none).length, m') ∧ CStrAt m' label.val (labelText tid none) := by
  have hblock : ValidBlock label.val ((labelText tid none).length + 1) :=
    ⟨label.2.valid, Nat.le_trans (Nat.add_le_add_left (labelText_length tid none) _) label.2.below⟩
  exact ⟨_, sprintk_eq (render_mailboxTidFmt tid) hblock, bytesAt_storeBytes m _ _,
    zero_notMem_labelText tid none⟩

/-- **The array on the stack** is zeroed, so every text that `kstrlcpy` copies into it is ended. -/
theorem mailboxLabel_eq (stack : Mem) (label : StackLabel) (tid : UInt32) (name : Option CString) :
    mailboxLabel stack label tid name =
      .ok ⟨labelText tid name, zero_notMem_labelText tid name⟩ := by
  suffices hcopied : ∃ m', CStrAt m' label.val (labelText tid name) ∧
      mailboxLabel stack label tid name = stringAt m' mailboxNameLen label.val by
    obtain ⟨m', hstr, heq⟩ := hcopied
    rw [heq, stringAt_eq hstr (labelText_length tid name)]
  rw [mailboxLabel]
  cases hname : name.filter fun name => name.val ≠ [] with
  | some given =>
    have htext : labelText tid name = given.val.take (mailboxNameLen - 1) := by
      rw [labelText, hname]
    have hzero : ∀ i, i ≤ mailboxNameLen - 1 →
        storeBytes stack label.val (List.replicate mailboxNameLen 0) (label.val + i) = 0 := by
      intro i hi
      have hlen : i < (List.replicate mailboxNameLen (0 : UInt8)).length := by
        rw [List.length_replicate, mailboxNameLen]
        exact Nat.lt_succ_of_le hi
      rw [(bytesAt_storeBytes stack label.val _).get hlen, List.getElem_replicate]
    rw [htext]
    exact ⟨_, doStringNCopySafe_zeroed hzero given, rfl⟩
  | none =>
    have htext : labelText tid name = labelText tid none := by
      rw [labelText, hname]
      rfl
    rw [htext]
    obtain ⟨m', hprint, hstr⟩ := sprintk_label
      (storeBytes stack label.val (List.replicate mailboxNameLen 0)) label tid
    exact ⟨m', hstr, by simp only [hprint, bind, Except.bind, pure, Except.pure]⟩

end Label

/-! ## Runs -/

/-- The registry, and for every registered mailbox the name that was given with it. -/
structure Boxes where
  reg : Registry
  asked : ObjPtr → Option (Option CString)

/-- The calls, and what other code does in between: it uses the objects that it has allocated, mailboxes
after their release among them, and sends and receives mails. -/
inductive MailboxCall where
  | init (stack : Mem) (label : StackLabel) (b : ObjPtr) (tid : UInt32) (name : Option CString)
  | create (stack : Mem) (label : StackLabel) (ptr : Nat) (tid : UInt32) (name : Option CString)
  | deinit (b : ObjPtr)
  | destroy (sprtMb : Option ObjPtr)
  | other (reg : Registry)

namespace Boxes

/-- One call. -/
def step (s : Boxes) : MailboxCall → Option Boxes
  | .init stack label b tid name =>
    match s.reg.mailboxInit walkRounds stack label b tid name with
    | .ok (reg, retval) =>
      some ⟨reg, if retval = erNormal then Function.update s.asked b (some name) else s.asked⟩
    | .error _ => none
  | .create stack label ptr tid name =>
    match s.reg.mailboxCreate walkRounds stack label ptr tid name with
    | .ok (reg, sprtMb) =>
      some ⟨reg, if h : isValid sprtMb = true then Function.update s.asked ⟨sprtMb, h⟩ (some name)
        else s.asked⟩
    | .error _ => none
  | .deinit b => some ⟨s.reg.mailboxDeinit b, Function.update s.asked b none⟩
  | .destroy none => some ⟨s.reg.mailboxDestroy none, s.asked⟩
  | .destroy (some b) =>
    some ⟨s.reg.mailboxDestroy (some b), Function.update s.asked b none⟩
  | .other reg => some ⟨reg, s.asked⟩

/-- The mailbox is registered. -/
def Registered (s : Boxes) (b : ObjPtr) : Prop := s.asked b ≠ none

/-- The condition on a registration: the mailbox is not registered already, and unless the text is
taken, a given name fits in the array, and the object has a zero byte where the copy ends. -/
def Admits (s : Boxes) (b : ObjPtr) (tid : UInt32) (name : Option CString) : Prop :=
  ¬ s.Registered b ∧
    ((∀ x, s.Registered x → ¬ CStrAt (s.reg.obj x) 0 (labelText tid name)) →
      (∀ n, name = some n → n.val.length < mailboxNameLen) ∧
        s.reg.obj b (labelText tid name).length = 0)

/-- The condition on a call.  Only registered mailboxes are taken off the list, and other code leaves
the names and the list links of these alone. -/
def Fits (s : Boxes) : MailboxCall → Prop
  | .init _ _ b tid name => s.Admits b tid name
  | .create _ _ ptr tid name => ∀ h : isValid ptr = true, s.Admits ⟨ptr, h⟩ tid name
  | .deinit b => s.Registered b
  | .destroy sprtMb => ∀ b, sprtMb = some b → s.Registered b
  | .other reg =>
    (∀ x, x = .sgrtKernelMailboxs ∨ (∃ b, s.Registered b ∧ x = .boxLink b) →
      reg.links.next x = s.reg.links.next x ∧ reg.links.prev x = s.reg.links.prev x) ∧
    ∀ b, s.Registered b → AgreeOn (s.reg.obj b) (reg.obj b) 0 mailboxNameLen

/-- Every registered mailbox is found under the name it was given, and no two have equal names. -/
structure NamesKept (s : Boxes) : Prop where
  found : ∀ b n, s.asked b = some (some n) → n.val ≠ [] →
    s.reg.mailboxFind walkRounds (some n) = .ok (some b)
  distinct : ∀ b c l, s.Registered b → s.Registered c → CStrAt (s.reg.obj b) 0 l →
    CStrAt (s.reg.obj c) 0 l → b = c

/-- The invariant: the list holds the registered mailboxes, whose names are ended in their arrays, are
the ones that were given, and differ. -/
structure Sound (s : Boxes) (xs : List ObjPtr) : Prop where
  lists : s.reg.Lists xs
  mem_iff : ∀ b, b ∈ xs ↔ s.Registered b
  stored : ∀ b name, s.asked b = some name → ∃ l, CStrAt (s.reg.obj b) 0 l ∧
    l.length < mailboxNameLen ∧ ∀ n, name = some n → n.val ≠ [] → l = n.val
  distinct : ∀ b c l, s.Registered b → s.Registered c → CStrAt (s.reg.obj b) 0 l →
    CStrAt (s.reg.obj c) 0 l → b = c

section Calls

variable {s : Boxes} {xs : List ObjPtr} {b : ObjPtr} {tid : UInt32} {name : Option CString}
  {n : CString} {stack : Mem} {label : StackLabel}

/-! ### Lookups -/

theorem mailboxFind_eq {reg : Registry} (h : reg.Lists xs) (hn : n.val ≠ []) :
    reg.mailboxFind walkRounds (some n) =
      .ok (xs.findSome? fun b => if strEqualAt (reg.obj b) 0 n.val then some b else none) := by
  rw [Registry.mailboxFind, if_neg hn]
  exact foreachEntry_next h (fun _ _ => rfl) h.length_lt

theorem Sound.find_some (h : s.Sound xs) (hb : s.Registered b) (hn : n.val ≠ [])
    (hstr : CStrAt (s.reg.obj b) 0 n.val) :
    s.reg.mailboxFind walkRounds (some n) = .ok (some b) := by
  rw [mailboxFind_eq h.lists hn]
  congr 1
  cases hfound : xs.findSome? fun b => if strEqualAt (s.reg.obj b) 0 n.val then some b else none with
  | none =>
    have hskip := List.findSome?_eq_none_iff.mp hfound b ((h.mem_iff b).mpr hb)
    rw [if_pos ((strEqualAt_iff n.2).mpr hstr)] at hskip
    cases hskip
  | some c =>
    obtain ⟨d, hd, hhit⟩ := List.exists_of_findSome?_eq_some hfound
    split at hhit
    · next heq =>
      cases hhit
      have hc := (strEqualAt_iff n.2).mp heq
      rw [h.distinct b c n.val hb ((h.mem_iff c).mp hd) hstr hc]
    · cases hhit

theorem Sound.find_none (h : s.Sound xs) (hn : n.val ≠ [])
    (hfree : ∀ x, s.Registered x → ¬ CStrAt (s.reg.obj x) 0 n.val) :
    s.reg.mailboxFind walkRounds (some n) = .ok none := by
  rw [mailboxFind_eq h.lists hn]
  congr 1
  apply List.findSome?_eq_none_iff.mpr
  intro x hx
  apply if_neg
  intro heq
  exact hfree x ((h.mem_iff x).mp hx) ((strEqualAt_iff n.2).mp heq)

theorem Sound.namesKept (h : s.Sound xs) : s.NamesKept where
  found b n hasked hn := by
    have hb : s.Registered b := by
      intro hnone
      rw [hnone] at hasked
      cases hasked
    obtain ⟨l, hstr, -, hname⟩ := h.stored b (some n) hasked
    obtain rfl := hname n rfl hn
    exact h.find_some hb hn hstr
  distinct := h.distinct

/-! ### Registration -/

theorem labelText_ne_nil (tid : UInt32) (name : Option CString) : labelText tid name ≠ [] := by
  rw [labelText]
  split
  · next n hname =>
    have hn : n.val ≠ [] := of_decide_eq_true (Option.filter_eq_some_iff.mp hname).2
    intro hnil
    rcases List.take_eq_nil_iff.mp hnil with h | h
    · exact absurd h (by decide)
    · exact hn h
  · simp

/-- The memory of an object after `mailbox_init` has written to it: where the byte behind the text was
zero, the object holds the text as a string. -/
theorem cStrAt_written (m : Mem) (tid : UInt32) {text : CString}
    (hlen : text.val.length < mailboxNameLen) (hzero : m text.val.length = 0) :
    CStrAt (store32 (doStringNCopySafe (store32 (store32 m mailboxNumMails 0) mailboxTid tid.toNat)
      0 text mailboxNameLen).2 mailboxSgrtLock 0) 0 text.val := by
  unfold mailboxNameLen at hlen
  have hkept : store32 (store32 m mailboxNumMails 0) mailboxTid tid.toNat text.val.length = 0 := by
    rw [store32_of_outside (by unfold mailboxTid; omega),
      store32_of_outside (by unfold mailboxNumMails; omega), hzero]
  show CStrAt (store32 (copySafeLoop text.val 32 _ 0) mailboxSgrtLock 0) 0 text.val
  rw [copySafeLoop_fits hlen]
  refine ((cStrAt_storeBytes_iff text.2).mpr (by rw [Nat.zero_add]; exact hkept)).congr ?_
  intro x _ hx
  exact store32_of_outside (by unfold mailboxSgrtLock; omega)

/-- `mailbox_init` with a text that is taken. -/
theorem Sound.init_taken (h : s.Sound xs) {x : ObjPtr} (hx : s.Registered x)
    (hstr : CStrAt (s.reg.obj x) 0 (labelText tid name)) :
    s.reg.mailboxInit walkRounds stack label b tid name = .ok (s.reg, -erExisted) := by
  rw [Registry.mailboxInit, mailboxLabel_eq]
  simp only [bind, Except.bind,
    h.find_some (n := ⟨_, zero_notMem_labelText tid name⟩) hx (labelText_ne_nil tid name) hstr]
  rfl

/-- A mailbox that is put on the list with a text that nobody else has. -/
theorem Sound.add {reg : Registry} {ys : List ObjPtr} {l : List UInt8} (h : s.Sound xs)
    (hlists : reg.Lists ys) (hperm : List.Perm ys (b :: xs))
    (hold : ∀ x, x ≠ b → reg.obj x = s.reg.obj x) (hnew : CStrAt (reg.obj b) 0 l)
    (hlen : l.length < mailboxNameLen) (hname : ∀ n, name = some n → n.val ≠ [] → l = n.val)
    (hfree : ∀ x, s.Registered x → ¬ CStrAt (s.reg.obj x) 0 l) :
    Sound ⟨reg, Function.update s.asked b (some name)⟩ ys := by
  have hregistered : ∀ x, x ≠ b →
      (Registered ⟨reg, Function.update s.asked b (some name)⟩ x ↔ s.Registered x) := by
    intro x hx
    show Function.update s.asked b (some name) x ≠ none ↔ _
    rw [Function.update_of_ne hx]
    rfl
  have hself : Registered ⟨reg, Function.update s.asked b (some name)⟩ b := by
    show Function.update s.asked b (some name) b ≠ none
    rw [Function.update_self]
    exact Option.some_ne_none name
  -- another registered mailbox does not have the text of the new one
  have hclash : ∀ x l', x ≠ b → s.Registered x → CStrAt (reg.obj x) 0 l' →
      ¬ CStrAt (reg.obj b) 0 l' := by
    intro x l' hx hreg hxl hbl
    rw [hold x hx, hbl.unique hnew] at hxl
    exact hfree x hreg hxl
  refine ⟨hlists, ?_, ?_, ?_⟩
  · intro x
    rw [hperm.mem_iff, List.mem_cons]
    rcases eq_or_ne x b with rfl | hx
    · exact ⟨fun _ => hself, fun _ => Or.inl rfl⟩
    · rw [hregistered x hx, ← h.mem_iff x]
      exact or_iff_right hx
  · intro x name' hasked
    rcases eq_or_ne x b with rfl | hx
    · have hgiven : Function.update s.asked x (some name) x = some name' := hasked
      rw [Function.update_self] at hgiven
      obtain rfl : name = name' := Option.some.inj hgiven
      exact ⟨l, hnew, hlen, hname⟩
    · show ∃ l, CStrAt (reg.obj x) 0 l ∧ _
      rw [hold x hx]
      exact h.stored x name' ((Function.update_of_ne hx _ _).symm.trans hasked)
  · intro x y l' hx hy hxl hyl
    rcases eq_or_ne x b with rfl | hxb
    · rcases eq_or_ne y x with rfl | hyb
      · rfl
      · exact absurd hxl (hclash y l' hyb ((hregistered y hyb).mp hy) hyl)
    · have hxs := (hregistered x hxb).mp hx
      rcases eq_or_ne y b with rfl | hyb
      · exact absurd hyl (hclash x l' hxb hxs hxl)
      · rw [hold x hxb] at hxl
        rw [hold y hyb] at hyl
        exact h.distinct x y l' hxs ((hregistered y hyb).mp hy) hxl hyl

/-- `mailbox_init` with a text that is free. -/
theorem Sound.init_free (h : s.Sound xs) (hb : ¬ s.Registered b)
    (hfree : ∀ x, s.Registered x → ¬ CStrAt (s.reg.obj x) 0 (labelText tid name))
    (hfits : (∀ n, name = some n → n.val.length < mailboxNameLen) ∧
      s.reg.obj b (labelText tid name).length = 0) :
    ∃ reg ys, s.reg.mailboxInit walkRounds stack label b tid name = .ok (reg, erNormal) ∧
      Sound ⟨reg, Function.update s.asked b (some name)⟩ ys := by
  have hlen := labelText_length tid name
  obtain ⟨m, hm⟩ : ∃ m, m = store32 (doStringNCopySafe
      (store32 (store32 (s.reg.obj b) mailboxNumMails 0) mailboxTid tid.toNat) 0
      ⟨_, zero_notMem_labelText tid name⟩ mailboxNameLen).2 mailboxSgrtLock 0 := ⟨_, rfl⟩
  have hstr : CStrAt m 0 (labelText tid name) := by
    rw [hm]
    exact cStrAt_written _ tid hlen hfits.2
  have hlists : Registry.Lists ⟨initListHead s.reg.links (.boxMail b),
      Function.update s.reg.obj b m⟩ xs := by
    refine h.lists.selfLink_of_outside ?_
    intro hmem
    rcases List.mem_cons.mp hmem with heq | hmem
    · cases heq
    · obtain ⟨y, -, heq⟩ := List.mem_map.mp hmem
      cases heq
  obtain ⟨reg, ys, hinsert, hobj, hys, hplaced⟩ := Registry.mailboxInsert_spec hlists
    (fun hmem => hb ((h.mem_iff b).mp hmem)) h.lists.length_lt
  refine ⟨reg, ys, ?_, h.add hys hplaced.perm ?_ ?_ hlen ?_ hfree⟩
  · rw [Registry.mailboxInit, mailboxLabel_eq]
    simp only [bind, Except.bind,
      h.find_none (n := ⟨_, zero_notMem_labelText tid name⟩) (labelText_ne_nil tid name) hfree,
      Option.isSome_none, Bool.false_eq_true, if_false, ← hm, hinsert]
    rfl
  · intro x hx
    rw [hobj]
    exact Function.update_of_ne hx _ _
  · rw [hobj]
    show CStrAt (Function.update s.reg.obj b m b) 0 _
    rw [Function.update_self]
    exact hstr
  · intro n hname hn
    rw [hname]
    exact labelText_of_fits hn (hfits.1 n hname)

/-- **`mailbox_init`** returns, and keeps the invariant. -/
theorem Sound.init (stack : Mem) (label : StackLabel) (h : s.Sound xs)
    (hadmits : s.Admits b tid name) :
    ∃ reg retval ys, s.reg.mailboxInit walkRounds stack label b tid name = .ok (reg, retval) ∧
      Sound ⟨reg, if retval = erNormal then Function.update s.asked b (some name) else s.asked⟩
        ys := by
  by_cases htaken : ∃ x, s.Registered x ∧ CStrAt (s.reg.obj x) 0 (labelText tid name)
  · obtain ⟨x, hx, hstr⟩ := htaken
    exact ⟨s.reg, -erExisted, xs, h.init_taken hx hstr, h⟩
  · have hfree : ∀ x, s.Registered x → ¬ CStrAt (s.reg.obj x) 0 (labelText tid name) :=
      fun x hx hstr => htaken ⟨x, hx, hstr⟩
    obtain ⟨reg, ys, hrun, hsound⟩ := h.init_free hadmits.1 hfree (hadmits.2 hfree)
    exact ⟨reg, erNormal, ys, hrun, hsound⟩

/-! ### Release -/

theorem Sound.deinit (h : s.Sound xs) (hb : s.Registered b) :
    ∃ ys, Sound ⟨s.reg.mailboxDeinit b, Function.update s.asked b none⟩ ys := by
  obtain ⟨pre, post, rfl⟩ := List.append_of_mem ((h.mem_iff b).mpr hb)
  have hnodup := h.lists.nodup
  have hregistered : ∀ x, Registered ⟨s.reg.mailboxDeinit b, Function.update s.asked b none⟩ x ↔
      x ≠ b ∧ s.Registered x := by
    intro x
    show Function.update s.asked b none x ≠ none ↔ _
    rcases eq_or_ne x b with rfl | hx
    · rw [Function.update_self]
      exact ⟨fun hne => absurd rfl hne, fun hne => absurd rfl hne.1⟩
    · rw [Function.update_of_ne hx]
      exact ⟨fun hreg => ⟨hx, hreg⟩, And.right⟩
  have hobj : ∀ x, x ≠ b → (s.reg.mailboxDeinit b).obj x = s.reg.obj x :=
    fun x hx => Function.update_of_ne hx _ _
  refine ⟨pre ++ post, ?_, ?_, ?_, ?_⟩
  · show Ring (s.reg.links.unlink (Registry.node b)) _ _
    have r : Ring s.reg.links .sgrtKernelMailboxs
        (pre.map Registry.node ++ Registry.node b :: post.map Registry.node) := by
      simpa [Registry.Lists] using h.lists
    rw [List.map_append]
    exact r.unlink
  · intro x
    rw [hregistered, ← h.mem_iff x]
    have hb' : b ∉ pre ++ post := (List.nodup_middle.mp hnodup).notMem
    constructor
    · intro hx
      refine ⟨?_, ?_⟩
      · rintro rfl
        exact hb' hx
      · exact (List.perm_middle.mem_iff).mpr (List.mem_cons_of_mem b hx)
    · rintro ⟨hne, hx⟩
      exact (List.mem_cons.mp (List.perm_middle.mem_iff.mp hx)).resolve_left hne
  · intro x name' hasked
    have hx : x ≠ b := by
      rintro rfl
      cases (Function.update_self x none s.asked).symm.trans hasked
    show ∃ l, CStrAt ((s.reg.mailboxDeinit b).obj x) 0 l ∧ _
    rw [hobj x hx]
    exact h.stored x name' ((Function.update_of_ne hx _ _).symm.trans hasked)
  · intro x y l hx hy hxl hyl
    obtain ⟨hxb, hxs⟩ := (hregistered x).mp hx
    obtain ⟨hyb, hys⟩ := (hregistered y).mp hy
    refine h.distinct x y l hxs hys ?_ ?_
    · rw [← hobj x hxb]
      exact hxl
    · rw [← hobj y hyb]
      exact hyl

/-! ### The run -/

/-- What other code may do keeps the invariant. -/
theorem Sound.other {reg : Registry} (h : s.Sound xs) (hfits : s.Fits (.other reg)) :
    Sound ⟨reg, s.asked⟩ xs := by
  obtain ⟨hlinks, hnames⟩ := hfits
  have hnode : ∀ x ∈ MailNode.sgrtKernelMailboxs :: xs.map Registry.node,
      x = .sgrtKernelMailboxs ∨ (∃ b, s.Registered b ∧ x = .boxLink b) := by
    intro x hx
    rcases List.mem_cons.mp hx with rfl | hx
    · exact Or.inl rfl
    · obtain ⟨b, hb, rfl⟩ := List.mem_map.mp hx
      exact Or.inr ⟨b, (h.mem_iff b).mp hb, rfl⟩
  have hstring : ∀ b l, s.Registered b → CStrAt (reg.obj b) 0 l → CStrAt (s.reg.obj b) 0 l := by
    intro b l hb hl
    cases hname : s.asked b with
    | none => exact absurd hname hb
    | some name =>
      obtain ⟨l', hl', hlen, -⟩ := h.stored b name hname
      have hinside : 0 + l'.length + 1 ≤ mailboxNameLen := by omega
      have hagree := (hnames b hb).mono (Nat.le_refl 0) hinside
      rw [hl.unique (hl'.congr hagree)]
      exact hl'
  refine ⟨?_, h.mem_iff, ?_, ?_⟩
  · exact h.lists.congr (fun x hx => (hlinks x (hnode x hx)).1)
      (fun x hx => (hlinks x (hnode x hx)).2)
  · intro b name hasked
    have hb : s.Registered b := by
      intro hnone
      cases hnone.symm.trans hasked
    obtain ⟨l, hl, hlen, hname⟩ := h.stored b name hasked
    have hinside : 0 + l.length + 1 ≤ mailboxNameLen := by omega
    have hagree := (hnames b hb).mono (Nat.le_refl 0) hinside
    exact ⟨l, hl.congr hagree, hlen, hname⟩
  · intro b c l hb hc hbl hcl
    exact h.distinct b c l hb hc (hstring b l hb hbl) (hstring c l hc hcl)

/-- **One call.** -/
theorem Sound.step (h : s.Sound xs) {call : MailboxCall} (hfits : s.Fits call) :
    ∃ t, s.step call = some t ∧ ∃ ys, t.Sound ys := by
  cases call with
  | init stack label b tid name =>
    obtain ⟨reg, retval, ys, hrun, hsound⟩ := h.init stack label hfits
    exact ⟨_, by rw [Boxes.step, hrun], ys, hsound⟩
  | create stack label ptr tid name =>
    by_cases hptr : isValid ptr = true
    · obtain ⟨reg, retval, ys, hrun, hsound⟩ := h.init stack label (hfits hptr)
      refine ⟨⟨reg, if retval = erNormal then Function.update s.asked ⟨ptr, hptr⟩ (some name)
        else s.asked⟩, ?_, ys, hsound⟩
      rw [Boxes.step, Registry.mailboxCreate, dif_pos hptr, hrun]
      simp only [bind, Except.bind, pure, Except.pure]
      by_cases hok : retval = erNormal
      · have hzero : ¬ retval ≠ 0 := not_not.mpr hok
        simp only [if_neg hzero, if_pos hok, dif_pos hptr]
      · have herr : isValid (asUint32 (-erFaild)) ≠ true := by decide
        simp only [if_pos (show retval ≠ 0 from hok), if_neg hok, dif_neg herr]
    · refine ⟨s, ?_, xs, h⟩
      rw [Boxes.step, Registry.mailboxCreate, dif_neg hptr]
      simp only [dif_neg hptr]
  | deinit b => exact ⟨_, rfl, h.deinit hfits⟩
  | destroy sprtMb =>
    cases sprtMb with
    | none => exact ⟨_, rfl, xs, h⟩
    | some b => exact ⟨_, rfl, h.deinit (hfits b rfl)⟩
  | other reg => exact ⟨_, rfl, xs, h.other hfits⟩

end Calls

/-- **Names are kept**: from the empty list, where every call fits, all calls return, and at every time
each registered mailbox is found under its name and no two have equal names. -/
theorem names_kept_of_fits (s : Boxes) (calls : List MailboxCall) (hempty : s.reg.Lists [])
    (hnone : ∀ b, s.asked b = none) (h : Meets step Fits s calls) :
    (∃ t, exec step s calls = some t) ∧ Always step NamesKept s calls := by
  have hsound : s.Sound [] := by
    refine ⟨hempty, ?_, ?_, ?_⟩
    · intro b
      exact ⟨fun hmem => absurd hmem List.not_mem_nil, fun hb => absurd (hnone b) hb⟩
    · intro b name hasked
      cases (hnone b).symm.trans hasked
    · intro b c l hb
      exact absurd (hnone b) hb
  have hstep : ∀ s call, (∃ xs, Sound s xs) → Fits s call →
      ∃ t, step s call = some t ∧ ∃ ys, t.Sound ys := by
    rintro s call ⟨xs, hs⟩ hfits
    exact hs.step hfits
  obtain ⟨hreturns, halways⟩ := run_of_meets hstep ⟨[], hsound⟩ h
  exact ⟨hreturns, halways.imp fun s ⟨_, hs⟩ => hs.namesKept⟩

/-! ### A dirty object -/

/-- Nothing is registered, and all bytes of all objects are `byte`. -/
def exampleBoxes (byte : UInt8) : Boxes := ⟨⟨⟨id, id⟩, fun _ _ => byte⟩, fun _ => none⟩

/-- The name `ab`. -/
def exampleName : CString := ⟨[97, 98], by decide⟩

/-- An array at `0x8e000`. -/
def exampleLabel : StackLabel := ⟨0x8e000, by decide, by decide⟩

/-- A registration that is admitted whether its text is taken or not. -/
def Fresh (s : Boxes) (b : ObjPtr) (tid : UInt32) (name : Option CString) : Prop :=
  s.asked b = none ∧ (∀ n ∈ name, n.val.length < mailboxNameLen) ∧
    s.reg.obj b (labelText tid name).length = 0

/-- Fresh mailboxes are made, and registered ones are taken off the list. -/
def FitsFresh (s : Boxes) : MailboxCall → Prop
  | .init _ _ b tid name => s.Fresh b tid name
  | .create _ _ ptr tid name => ∀ h : isValid ptr = true, s.Fresh ⟨ptr, h⟩ tid name
  | .deinit b => s.asked b ≠ none
  | .destroy sprtMb => ∀ b ∈ sprtMb, s.asked b ≠ none
  | .other _ => False

instance (s : Boxes) (b : ObjPtr) (tid : UInt32) (name : Option CString) :
    Decidable (s.Fresh b tid name) :=
  inferInstanceAs (Decidable (_ ∧ _ ∧ _))

instance : ∀ s call, Decidable (FitsFresh s call)
  | s, .init _ _ b tid name => inferInstanceAs (Decidable (s.Fresh b tid name))
  | s, .create _ _ ptr tid name =>
    inferInstanceAs (Decidable (∀ h : isValid ptr = true, s.Fresh ⟨ptr, h⟩ tid name))
  | s, .deinit b => inferInstanceAs (Decidable (s.asked b ≠ none))
  | s, .destroy sprtMb => inferInstanceAs (Decidable (∀ b ∈ sprtMb, s.asked b ≠ none))
  | _, .other _ => isFalse id

theorem Fresh.admits {s : Boxes} {b : ObjPtr} {tid : UInt32} {name : Option CString}
    (h : s.Fresh b tid name) : s.Admits b tid name :=
  ⟨fun hreg => hreg h.1, fun _ => ⟨fun n hn => h.2.1 n hn, h.2.2⟩⟩

theorem FitsFresh.fits (s : Boxes) (call : MailboxCall) (h : FitsFresh s call) : s.Fits call := by
  cases call with
  | init stack label b tid name => exact Fresh.admits h
  | create stack label ptr tid name => exact fun hptr => (h hptr).admits
  | deinit b => exact h
  | destroy sprtMb => exact fun b hb => h b hb
  | other reg => exact absurd h id

/-- A mailbox is made for each of the threads 1 and 2, the first under a name.  Then the first is
released, and its object is registered again without a name. -/
def exampleMailboxes : List MailboxCall :=
  [.create (fun _ => 0) exampleLabel 0x8d008 1 (some exampleName),
    .init (fun _ => 7) exampleLabel (Registry.exampleBox 2) 2 none,
    .deinit ⟨0x8d008, by decide⟩,
    .init (fun _ => 7) exampleLabel ⟨0x8d008, by decide⟩ 7 none,
    .destroy (some (Registry.exampleBox 2))]

theorem names_kept_of_fits_clean :
    (∃ t, exec step (exampleBoxes 0) exampleMailboxes = some t) ∧
      Always step NamesKept (exampleBoxes 0) exampleMailboxes := by
  have hfresh : Meets step FitsFresh (exampleBoxes 0) exampleMailboxes := by
    decide +kernel
  exact names_kept_of_fits (exampleBoxes 0) exampleMailboxes ⟨by simp, rfl, rfl⟩ (fun _ => rfl)
    (hfresh.imp FitsFresh.fits)

/-- An object full of `0xff` is registered, and not found under the name it was given. -/
theorem dirty_mailbox_lost :
    ∃ reg, (exampleBoxes 0xff).reg.mailboxInit walkRounds (fun _ => 0) exampleLabel
        (Registry.exampleBox 1) 1 (some exampleName) = .ok (reg, erNormal) ∧
      reg.mailboxFind walkRounds (some exampleName) = .ok none :=
  ⟨_, rfl, rfl⟩

end Boxes

end HeavenFox.Kernel
