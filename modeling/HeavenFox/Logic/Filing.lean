/-
# HeavenFox.Logic.Filing -- putting items into the bin that has their label

A small library with nothing of the kernel in it.  Bins have keys, items have labels, and an item
goes to the first bin whose key is its label, or nowhere.  Where all keys are different each bin
gets exactly the items with its label, in their order (`foldl_fileItem`); so what was
labelled for the bins, and put on one pile, is found again bin by bin (`filter_flatMap_label`).
-/
import Mathlib.Data.List.Nodup

namespace HeavenFox.Logic

variable {β ι κ : Type*} [DecidableEq κ] {key : β → κ} {label : ι → κ} {add : ι → β → β}
  {bins : List β}

/-- The item goes to the first bin with its label. -/
def fileItem (key : β → κ) (label : ι → κ) (add : ι → β → β) (bins : List β) (x : ι) : List β :=
  match bins.findIdx? fun b => key b = label x with
  | none => bins
  | some i => bins.modify i (add x)

/-- Where all keys are different, the first bin with a key is the only one. -/
theorem modify_findIdx? (hbins : (bins.map key).Nodup) {a : κ} {i : Nat} (f : β → β)
    (hi : bins.findIdx? (fun b => key b = a) = some i) :
    bins.modify i f = bins.map fun b => if key b = a then f b else b := by
  induction bins generalizing i with
  | nil => simp at hi
  | cons b bins ih =>
    rw [List.map_cons, List.nodup_cons] at hbins
    rw [List.findIdx?_cons] at hi
    split at hi
    next hb =>
      obtain rfl := Option.some.inj hi
      have hba : key b = a := of_decide_eq_true hb
      have hrest : ∀ c ∈ bins, ¬ key c = a := by
        rintro c hc rfl
        exact hbins.1 (hba ▸ List.mem_map_of_mem hc)
      rw [List.modify_zero_cons, List.map_cons, if_pos hba, List.map_congr_left fun c hc =>
        if_neg (hrest c hc), List.map_id']
    next hb =>
      obtain ⟨j, hj, rfl⟩ := Option.map_eq_some_iff.mp hi
      have hba : ¬ key b = a := fun hba => hb (decide_eq_true hba)
      rw [List.modify_succ_cons, List.map_cons, if_neg hba, ih hbins.2 hj]

theorem fileItem_eq (hbins : (bins.map key).Nodup) (x : ι) :
    fileItem key label add bins x = bins.map fun b => if key b = label x then add x b else b := by
  unfold fileItem
  split
  next hnone =>
    have hno : ∀ b ∈ bins, ¬ key b = label x := by simpa [List.findIdx?_eq_none_iff] using hnone
    rw [List.map_congr_left fun b hb => if_neg (hno b hb), List.map_id']
  next hi => exact modify_findIdx? hbins (add x) hi

/-- An item changes no key. -/
theorem keys_fileItem (hadd : ∀ x b, key (add x b) = key b) (hbins : (bins.map key).Nodup) (x : ι) :
    (fileItem key label add bins x).map key = bins.map key := by
  rw [fileItem_eq hbins, List.map_map]
  apply List.map_congr_left
  intro b _
  show key (if key b = label x then add x b else b) = key b
  split
  · exact hadd x b
  · rfl

/-- **Each bin gets the items with its label, in their order.** -/
theorem foldl_fileItem (hadd : ∀ x b, key (add x b) = key b) (hbins : (bins.map key).Nodup)
    (items : List ι) :
    items.foldl (fileItem key label add) bins =
      bins.map fun b => (items.filter fun x => label x = key b).foldl (fun b x => add x b) b := by
  induction items generalizing bins with
  | nil => simp
  | cons x items ih =>
    have hkeys : (fileItem key label add bins x).map key = bins.map key :=
      keys_fileItem hadd hbins x
    rw [List.foldl_cons, ih (hkeys ▸ hbins), fileItem_eq hbins, List.map_map]
    apply List.map_congr_left
    intro b _
    by_cases hb : key b = label x
    · simp [hb, hadd]
    · simp [hb, Ne.symm hb]

/-- Nothing with the label is among items with others. -/
theorem filter_label_eq_nil {items : List ι} {a : κ} (h : ∀ x ∈ items, label x ≠ a) :
    items.filter (fun x => label x = a) = [] :=
  List.filter_eq_nil_iff.mpr fun x hx hxa => h x hx (of_decide_eq_true hxa)

/-- **What was labelled for a bin is found again** on the pile of what was labelled for all. -/
theorem filter_flatMap_label {f : β → List ι} (hbins : (bins.map key).Nodup)
    (hlabel : ∀ b ∈ bins, ∀ x ∈ f b, label x = key b) {b : β} (hb : b ∈ bins) :
    (bins.flatMap f).filter (fun x => label x = key b) = f b := by
  induction bins with
  | nil => exact absurd hb List.not_mem_nil
  | cons c bins ih =>
    rw [List.map_cons, List.nodup_cons] at hbins
    obtain ⟨hfirst, hlabels⟩ := List.forall_mem_cons.mp hlabel
    rw [List.flatMap_cons, List.filter_append]
    obtain rfl | hmem := List.mem_cons.mp hb
    · have hown : (f b).filter (fun x => label x = key b) = f b :=
        List.filter_eq_self.mpr fun x hx => decide_eq_true (hfirst x hx)
      have hrest : (bins.flatMap f).filter (fun x => label x = key b) = [] := by
        apply filter_label_eq_nil
        intro x hx hxb
        obtain ⟨c, hc, hxc⟩ := List.mem_flatMap.mp hx
        exact hbins.1 (hxb ▸ hlabels c hc x hxc ▸ List.mem_map_of_mem hc)
      rw [hown, hrest, List.append_nil]
    · have hhead : (f c).filter (fun x => label x = key b) = [] := by
        apply filter_label_eq_nil
        intro x hx hxb
        exact hbins.1 (hfirst x hx ▸ hxb ▸ List.mem_map_of_mem hmem)
      rw [hhead, List.nil_append]
      exact ih hbins.2 hlabels hmem

end HeavenFox.Logic
