/-
# HeavenFox.Platform.IrqDomainList -- the list of interrupt domains

`IrqMaps` has the domains as a list.  Here they are on the ring of links through
`sgrt_fwk_irq_domain`, and `fwkOfIrqHost_eq` says that looking for a domain is the same on either.

`fwk_irq_domain_del_hierarchy` is to take a domain off the list, by deleting the tail of a list
whose head is the link of the domain.  This is the node before it: another domain, or the head of
the list itself.  The domain that is deleted is never the one that is asked for
(`never_removes_domain`).
-/
import HeavenFox.Common.ListTypes
import HeavenFox.Platform.IrqDomain

namespace HeavenFox.Platform

open HeavenFox.Common HeavenFox.Logic

/-- The domains, and the links of `sgrt_fwk_irq_domain`, at `none`, and of the domains. -/
structure IrqDomainList where
  maps : IrqMaps
  links : Links (Option ObjPtr)

namespace IrqDomainList

/-- The domains on the list, in order. -/
def OnList (s : IrqDomainList) (domains : List ObjPtr) : Prop :=
  Ring s.links none (domains.map some)

/-- The body of the loop of `fwk_of_irq_host`. -/
def hostAt (s : IrqDomainList) (sprtNode : Option ObjPtr) :
    Option ObjPtr → Except Stop (Option ObjPtr)
  | none => .error .fault
  | some ptr =>
    match s.maps.domain ptr with
    | none => .error .fault
    | some domain => .ok (if sprtNode = domain.sprtNode then some ptr else none)

/-- `fwk_of_irq_host`. -/
def fwkOfIrqHost (s : IrqDomainList) (sprtNode : Option ObjPtr) : Except Stop (Option ObjPtr) :=
  foreachEntry s.links.next none (s.hostAt sprtNode) walkRounds (s.links.next none)

/-- `fwk_irq_domain_del_hierarchy`. -/
def fwkIrqDomainDelHierarchy (s : IrqDomainList) :
    Option ObjPtr → Except Stop IrqDomainList
  | none => .ok s
  | some sprtDomain => do
    let maps ← s.maps.fwkIrqDomainFreeIrqs sprtDomain
    pure { maps, links := listHeadDelTail s.links (some sprtDomain) }

/-! ## Looking for a domain -/

variable {s s' : IrqDomainList} {domains pre post : List ObjPtr} {d p : ObjPtr}

theorem OnList.nodup (h : s.OnList domains) : domains.Nodup :=
  (List.nodup_map_iff (Option.some_injective ObjPtr)).mp h.members_nodup

theorem OnList.unique {domains' : List ObjPtr} (h : s.OnList domains) (h' : s.OnList domains') :
    domains = domains' :=
  List.map_injective_iff.mpr (Option.some_injective ObjPtr) (Ring.unique h h')

/-- What the loop finds at a domain. -/
def hostOf (s : IrqDomainList) (sprtNode : Option ObjPtr) (ptr : ObjPtr) : Option ObjPtr :=
  (s.maps.domain ptr).bind fun domain => if sprtNode = domain.sprtNode then some ptr else none

theorem hostAt_eq {ptr : ObjPtr} (hlive : (s.maps.domain ptr).isSome = true)
    (sprtNode : Option ObjPtr) : s.hostAt sprtNode (some ptr) = .ok (s.hostOf sprtNode ptr) := by
  obtain ⟨domain, hdomain⟩ := Option.isSome_iff_exists.mp hlive
  simp only [hostAt, hostOf, hdomain, Option.bind_some]

theorem fwkOfIrqHost_findSome (h : s.OnList domains)
    (hlive : ∀ ptr ∈ domains, (s.maps.domain ptr).isSome = true) (sprtNode : Option ObjPtr) :
    s.fwkOfIrqHost sprtNode = .ok (domains.findSome? (s.hostOf sprtNode)) := by
  have hlen := ObjPtr.length_of_nodup h.nodup
  apply foreachEntry_next h
  · intro ptr hptr
    exact hostAt_eq (hlive ptr hptr) sprtNode
  · unfold walkRounds
    omega

theorem irqHostLoop_findSome (hlive : ∀ ptr ∈ domains, (s.maps.domain ptr).isSome = true)
    (sprtNode : Option ObjPtr) :
    (s.maps.irqHostLoop sprtNode domains).map (Option.map Prod.fst) =
      .ok (domains.findSome? (s.hostOf sprtNode)) := by
  induction domains with
  | nil => rfl
  | cons ptr rest ih =>
    obtain ⟨domain, hdomain⟩ := Option.isSome_iff_exists.mp (hlive ptr List.mem_cons_self)
    rw [IrqMaps.irqHostLoop, List.findSome?_cons]
    simp only [hdomain, hostOf, Option.bind_some]
    by_cases hnode : sprtNode = domain.sprtNode
    · rw [if_pos hnode, if_pos hnode]
      rfl
    · rw [if_neg hnode, if_neg hnode]
      exact ih fun ptr' hptr' => hlive ptr' (List.mem_cons_of_mem ptr hptr')

/-- **Looking on the links** is looking in the list. -/
theorem fwkOfIrqHost_eq (h : s.OnList s.maps.domains)
    (hlive : ∀ ptr ∈ s.maps.domains, (s.maps.domain ptr).isSome = true)
    (sprtNode : Option ObjPtr) :
    s.fwkOfIrqHost sprtNode = (s.maps.fwkOfIrqHost sprtNode).map (Option.map Prod.fst) := by
  rw [fwkOfIrqHost_findSome h hlive, IrqMaps.fwkOfIrqHost, irqHostLoop_findSome hlive]

/-! ## What is deleted -/

theorem del_cases (h : s.fwkIrqDomainDelHierarchy (some d) = .ok s') :
    s'.links = listHeadDelTail s.links (some d) := by
  rw [fwkIrqDomainDelHierarchy] at h
  cases hfree : s.maps.fwkIrqDomainFreeIrqs d with
  | error stop =>
    rw [hfree] at h
    cases h
  | ok maps =>
    rw [hfree] at h
    cases h
    rfl

/-- Behind another domain, that domain goes. -/
theorem del_behind (h : s.OnList (pre ++ p :: d :: post))
    (hcall : s.fwkIrqDomainDelHierarchy (some d) = .ok s') : s'.OnList (pre ++ d :: post) := by
  have hring : Ring s.links none (pre.map some ++ some p :: some d :: post.map some) := by
    simpa only [OnList, List.map_append, List.map_cons] using h
  have hnext : s.links.next (some p) = some d := hring.next_member
  have hsplit : Ring s.links none ((pre.map some ++ [some p]) ++ some d :: post.map some) := by
    simpa only [List.append_assoc, List.singleton_append] using hring
  have hprev : s.links.prev (some d) = some p := by
    rw [hsplit.prev_member, Ring.before_concat]
  rw [OnList, del_cases hcall, listHeadDelTail_eq (by rw [hprev, hnext]), hprev, List.map_append,
    List.map_cons]
  exact hring.unlink

/-- The first domain stays, and the head of the list goes. -/
theorem del_first (h : s.OnList (d :: post))
    (hcall : s.fwkIrqDomainDelHierarchy (some d) = .ok s') :
    s'.links.next none = some d ∧
      ∀ a ∈ (d :: post).map some, s'.links.next a ∈ (d :: post).map some := by
  have hring : Ring s.links none ([] ++ some d :: post.map some) := h
  have hprev : s.links.prev (some d) = none := hring.prev_member
  have hnext : s.links.next none = some d := hring.next_before
  have hlast : s.links.prev none ∈ (d :: post).map some := by
    rw [hring.prev_head]
    exact Ring.before_append_mem _ _ [] _
  have hlinks : s'.links = s.links.unlink none := by
    rw [del_cases hcall, listHeadDelTail_eq (by rw [hprev, hnext]), hprev]
  rw [hlinks]
  refine ⟨?_, ?_⟩
  · rw [Links.unlink_next, if_neg, hnext]
    intro hnone
    rw [← hnone] at hlast
    simp at hlast
  · intro a ha
    rw [Links.unlink_next]
    by_cases hend : a = s.links.prev none
    · rw [if_pos hend, hnext]
      exact List.mem_cons_self
    rw [if_neg hend]
    obtain ⟨before, behind, hat⟩ := List.append_of_mem ha
    rw [OnList, hat] at h
    cases behind with
    | nil =>
      -- only the last domain leads to the head
      rw [h.prev_head, Ring.before_concat] at hend
      exact absurd rfl hend
    | cons b behind =>
      have hlead : s.links.next a = b := h.next_member
      rw [hlead, hat]
      exact List.mem_append_right _ (List.mem_cons_of_mem a List.mem_cons_self)

/-- Without its head the list has no end. -/
theorem del_first_spins (h : s.OnList (d :: post))
    (hcall : s.fwkIrqDomainDelHierarchy (some d) = .ok s') {sprtNode : Option ObjPtr}
    (hnone : ∀ a ∈ (d :: post).map some, s'.hostAt sprtNode a = .ok none) :
    s'.fwkOfIrqHost sprtNode = .error .spins := by
  obtain ⟨hfirst, hnext⟩ := del_first h hcall
  rw [fwkOfIrqHost, hfirst]
  apply foreachEntry_spins (fun a => a ∈ (d :: post).map some)
  · intro a ha
    refine ⟨?_, hnone a ha, hnext a ha⟩
    rintro rfl
    simp at ha
  · exact List.mem_cons_self

/-! ## The domain that is asked for -/

/-- Exactly the domain is taken off the list: the call returns, the others are on the list in their
order, and looking for a domain does not return it. -/
def RemovesDomain (s : IrqDomainList) (d : ObjPtr) : Prop :=
  ∃ s', s.fwkIrqDomainDelHierarchy (some d) = .ok s' ∧
    (∀ domains, s.OnList domains → s'.OnList (domains.erase d)) ∧
    ∀ sprtNode, s'.fwkOfIrqHost sprtNode ≠ .ok (some d)

/-- **The domain is never removed**, wherever it is on the list. -/
theorem never_removes_domain (h : s.OnList domains) (hd : d ∈ domains) : ¬ RemovesDomain s d := by
  rintro ⟨s', hcall, hothers, -⟩
  have hlist := hothers domains h
  have hnodup := h.nodup
  obtain ⟨pre, post, rfl⟩ := List.append_of_mem hd
  cases pre using List.reverseRecOn with
  | nil =>
    have hring : Ring s'.links none (post.map some) := by
      simpa only [OnList, List.nil_append, List.erase_cons_head] using hlist
    have hmem := hring.next_mem List.mem_cons_self
    rw [(del_first h hcall).1] at hmem
    have hin : d ∈ post := by simpa using hmem
    exact (List.nodup_cons.mp hnodup).1 hin
  | append_singleton pre p =>
    rw [List.append_assoc, List.singleton_append] at h hlist hnodup
    have hsame := (del_behind h hcall).unique hlist
    have hin : d ∈ (pre ++ p :: d :: post).erase d := by
      rw [← hsame]
      exact List.mem_append_right _ List.mem_cons_self
    exact hnodup.not_mem_erase hin

/-- The registry of one domain. -/
def oneDomain : IrqDomainList where
  maps := { IrqMaps.start with
    domains := [⟨0x56000, by decide⟩]
    domain := Function.update (fun _ => none) ⟨0x56000, by decide⟩
      (some ⟨some ⟨0x56100, by decide⟩, ⟨none, false⟩, 0, fun _ => -1⟩) }
  links := ⟨fun a => if a = none then some ⟨0x56000, by decide⟩ else none,
    fun a => if a = none then some ⟨0x56000, by decide⟩ else none⟩

theorem oneDomain_onList : oneDomain.OnList [⟨0x56000, by decide⟩] :=
  ⟨by decide, ⟨rfl, rfl⟩, ⟨rfl, rfl⟩⟩

/-- A domain that is alone on the list. -/
theorem never_removes_domain_alone : ¬ RemovesDomain oneDomain ⟨0x56000, by decide⟩ :=
  never_removes_domain oneDomain_onList List.mem_cons_self

/-- It is still found by its node after it has been deleted. -/
theorem deleted_domain_found :
    ¬ ∃ s', oneDomain.fwkIrqDomainDelHierarchy (some ⟨0x56000, by decide⟩) = .ok s' ∧
      ∀ sprtNode, s'.fwkOfIrqHost sprtNode ≠ .ok (some ⟨0x56000, by decide⟩) := by
  rintro ⟨s', hcall, hgone⟩
  cases hcall
  exact hgone (some ⟨0x56100, by decide⟩) rfl

end IrqDomainList

end HeavenFox.Platform
