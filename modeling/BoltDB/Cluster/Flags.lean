import BoltDB.Cluster.Ownership

/-!
# Marks and reports of failures

What the operations do to the records that failure detection uses: the flags of the known nodes, the
reports about them, and the slots that were taken over. Most of them are quiet: they may forget marks and
reports, but they bring none.

* `Quiet` — what such an operation leaves alone, with the marks one looks at as a parameter.
* `quiet_applyOwners` — the part of a gossip message in front of its reports.
* `Reported` — what a report can do.
* `MayFail` — when a payload can make a node FAIL, by the state in which it comes in.
-/

namespace BoltDB.Cluster.Topology

open Bytes Transition List Std.ExtTreeMap Function Option

namespace State

-- a goal must not be decided by going through all slots
attribute [local irreducible] slotsOf

/-- The record of a node carries a flag. -/
def HasFlag (st : State) (id : Bytes) (f : Flag) : Prop := ∃ n, st.nodes[id]? = some n ∧ f ∈ n.flags

instance (st : State) (id : Bytes) (f : Flag) : Decidable (st.HasFlag id f) :=
  inferInstanceAs (Decidable (∃ n ∈ st.nodes[id]?, f ∈ n.flags))

theorem mem_nodes_iff {st : State} {id : Bytes} : id ∈ st.nodes ↔ ∃ n, st.nodes[id]? = some n := by
  rw [mem_iff_isSome_getElem?, isSome_iff_exists]

theorem slotsOf_congr {st st' : State} (h : st'.slots = st.slots) (id : Bytes) :
    st'.slotsOf id = st.slotsOf id := by
  rw [slotsOf, slotsOf, h]

/-- Every record stands under the ID it carries. -/
def Keyed (st : State) : Prop := ∀ (id : Bytes) (n : Node), st.nodes[id]? = some n → n.id = id

/-- None of the marks `P` appears, no report and no takeover. Only the nodes in `gone` may be forgotten. -/
structure Quiet (P : Bytes → Flag → Prop) (gone : Bytes → Prop) (st st' : State) : Prop where
  myself : st'.myself = st.myself
  known : ∀ id ∈ st.nodes, ¬ gone id → id ∈ st'.nodes
  reports : ∀ id, st'.pfailReports id ⊆ st.pfailReports id
  flags : ∀ id f, P id f → st'.HasFlag id f → st.HasFlag id f
  usurped : ∀ id, st'.usurped id ≠ none → st.usurped id ≠ none
  saved : st'.saved = st.saved
  keyed : st.Keyed → st'.Keyed

section

variable {P : Bytes → Flag → Prop} {gone : Bytes → Prop}

theorem Quiet.refl (st : State) : Quiet P gone st st :=
  ⟨rfl, fun _ h _ => h, fun _ => Finset.Subset.refl _, fun _ _ _ h => h, fun _ h => h, rfl, id⟩

variable {id : Bytes} {st : State}

theorem Quiet.trans {st' st'' : State} (h : Quiet P gone st st') (h' : Quiet P gone st' st'') :
    Quiet P gone st st'' where
  myself := h'.myself.trans h.myself
  known id hid hgone := h'.known id (h.known id hid hgone) hgone
  reports id := (h'.reports id).trans (h.reports id)
  flags id f hP hf := h.flags id f hP (h'.flags id f hP hf)
  usurped id hid := h.usurped id (h'.usurped id hid)
  saved := h'.saved.trans h.saved
  keyed hkeyed := h'.keyed (h.keyed hkeyed)

theorem quiet_foldl {α : Type} {f : State → α → State} (l : List α) (st : State)
    (h : ∀ st, ∀ a ∈ l, Quiet P gone st (f st a)) : Quiet P gone st (l.foldl f st) := by
  induction l generalizing st with
  | nil => exact .refl st
  | cons a l ih =>
    apply (h st a mem_cons_self).trans
    apply ih
    intro st b hb
    exact h st b (mem_cons_of_mem a hb)

/-- A change of what failure detection does not look at. -/
theorem quiet_of_eq {st' : State} (hme : st'.myself = st.myself) (hnodes : st'.nodes = st.nodes)
    (hreports : st'.pfailReports = st.pfailReports) (husurped : st'.usurped = st.usurped)
    (hsaved : st'.saved = st.saved) : Quiet P gone st st' where
  myself := hme
  known id hid _ := by rwa [hnodes]
  reports id := by rw [hreports]
  flags id f _ hf := by rwa [HasFlag, hnodes] at hf
  usurped id hid := by rwa [husurped] at hid
  saved := hsaved
  keyed hkeyed := by rwa [Keyed, hnodes]

theorem keyed_modifyNode {f : Node → Node} (hid : ∀ n, (f n).id = n.id) (hkeyed : st.Keyed) :
    (st.modifyNode id f).Keyed := by
  intro id' n hn
  rw [getElem?_modifyNode] at hn
  split at hn
  · obtain ⟨m, hm, rfl⟩ := map_eq_some_iff.mp hn
    rw [hid]
    exact hkeyed id' m hm
  · exact hkeyed id' n hn

/-- A change of one record that brings none of the marks. -/
theorem quiet_modifyNode (st : State) (id : Bytes) (f : Node → Node) (hid : ∀ n, (f n).id = n.id)
    (hf : ∀ n, ∀ x ∈ (f n).flags, P id x → x ∈ n.flags) : Quiet P gone st (st.modifyNode id f) where
  myself := rfl
  known _ hid _ := mem_modifyNode.mpr hid
  reports _ := Finset.Subset.refl _
  flags id' x hP hx := by
    obtain ⟨n, hn, hx⟩ := hx
    rw [getElem?_modifyNode] at hn
    split at hn
    · next heq =>
      subst heq
      obtain ⟨m, hm, rfl⟩ := map_eq_some_iff.mp hn
      exact ⟨m, hm, hf m x hx hP⟩
    · exact ⟨n, hn, hx⟩
  usurped _ h := h
  saved := rfl
  keyed := keyed_modifyNode hid

/-! ## Slots -/

theorem quiet_give (st : State) (start stop : Nat) (id : Bytes) :
    Quiet P gone st (st.give start stop id) :=
  (quiet_modifyNode st id (·.addRange start stop) (fun _ => rfl) fun _ _ h _ => h).trans
    (quiet_of_eq rfl rfl rfl rfl rfl)

theorem quiet_raiseEpoch (st : State) (id : Bytes) : Quiet P gone st (st.raiseEpoch id) :=
  (quiet_modifyNode st id ({ · with epoch := st.epoch + 1 }) (fun _ => rfl) fun _ _ h _ => h).trans
    (quiet_of_eq rfl rfl rfl rfl rfl)

theorem quiet_assignSlot (st : State) (slot : Nat) (id : Bytes) :
    Quiet P gone st (st.assignSlot slot id) := by
  rw [assignSlot]
  split
  · apply (quiet_give st slot slot id).trans
    apply (quiet_raiseEpoch _ id).trans
    exact quiet_of_eq rfl rfl rfl rfl rfl
  · exact .refl st

theorem quiet_assignSlotRange (st : State) (start stop : Nat) (id : Bytes) :
    Quiet P gone st (st.assignSlotRange start stop id) := by
  rw [assignSlotRange]
  split
  · exact (quiet_give st start stop id).trans (quiet_raiseEpoch _ id)
  · exact .refl st

theorem quiet_removeSlot (st : State) (slot : Nat) : Quiet P gone st (st.removeSlot slot) := by
  rw [removeSlot]
  split
  · split
    · exact .refl st
    · dsimp only
      split
      · apply (quiet_of_eq rfl rfl rfl rfl rfl : Quiet P gone st
          { st with slots := Function.update st.slots slot none }).trans
        exact quiet_modifyNode _ _ _ (fun _ => rfl) fun _ _ h _ => h
      · exact quiet_of_eq rfl rfl rfl rfl rfl
  · exact .refl st

theorem quiet_takeSlotsOf (st : State) (id : Bytes) : Quiet P gone st (st.takeSlotsOf id) :=
  quiet_foldl _ st fun st slot _ => quiet_give st slot slot st.myself

theorem quiet_erase (st : State) (hid : gone id) :
    Quiet P gone st { st with nodes := st.nodes.erase id } where
  myself := rfl
  known id' hid' hgone := by
    rw [mem_erase]
    refine ⟨?_, hid'⟩
    intro heq
    rw [Std.LawfulEqCmp.compare_eq_iff_eq] at heq
    exact hgone (heq ▸ hid)
  reports _ := Finset.Subset.refl _
  flags id' f _ hf := by
    obtain ⟨n, hn, hf⟩ := hf
    rw [getElem?_erase] at hn
    split at hn
    · cases hn
    · exact ⟨n, hn, hf⟩
  usurped _ h := h
  saved := rfl
  keyed hkeyed id' n hn := by
    rw [getElem?_erase] at hn
    split at hn
    · cases hn
    · exact hkeyed id' n hn

theorem quiet_removeNode (st : State) (hid : gone id) : Quiet P gone st (st.removeNode id) :=
  (quiet_erase st hid).trans (quiet_takeSlotsOf _ id)

/-- A node that was not known comes in. -/
theorem quiet_insertNode {node : Node} (hid : node.id = id) (hflags : ∀ f ∈ node.flags, ¬ P id f) :
    Quiet P gone st { st with nodes := st.nodes.insert id node } where
  myself := rfl
  known id' hid' _ := mem_insert.mpr (.inr hid')
  reports _ := Finset.Subset.refl _
  flags id' f hP hf := by
    obtain ⟨n, hn, hf⟩ := hf
    rw [Std.ExtTreeMap.getElem?_insert] at hn
    split at hn
    · next heq =>
      rw [Std.LawfulEqCmp.compare_eq_iff_eq] at heq
      subst heq
      cases hn
      exact absurd hP (hflags f hf)
    · exact ⟨n, hn, hf⟩
  usurped _ h := h
  saved := rfl
  keyed hkeyed id' n hn := by
    rw [Std.ExtTreeMap.getElem?_insert] at hn
    split at hn
    · next heq =>
      rw [← Option.some.inj hn, hid]
      exact Std.LawfulEqCmp.compare_eq_iff_eq.mp heq
    · exact hkeyed id' n hn

/-! ## Recovery and timeouts -/

theorem quiet_giveBack (st : State) (id : Bytes) (slot : Nat) :
    Quiet P gone st (st.giveBack id slot) := by
  rw [giveBack]
  split
  · exact quiet_give st slot slot id
  · exact .refl st

theorem quiet_rebuildMyselfSlotRanges (st : State) : Quiet P gone st st.rebuildMyselfSlotRanges :=
  quiet_modifyNode st st.myself _ (fun _ => rfl) fun _ _ h _ => h

variable {id' reporter : Bytes}

theorem update_ne_none {β : Type} {f : Bytes → Option β} (h : Function.update f id none id' ≠ none) :
    f id' ≠ none := by
  by_cases heq : id' = id
  · subst heq
    rw [update_self] at h
    exact absurd rfl h
  · rwa [update_of_ne heq] at h

/-- Marks, reports and takeovers of a node that is back are forgotten. -/
theorem quiet_recoverFailedNode (st : State) (id : Bytes) :
    Quiet P gone st (st.recoverFailedNode id) := by
  have hcleared : Quiet P gone st { st.modifyNode id Node.clearFailFlag with
      pfailReports := Function.update st.pfailReports id ∅ } := by
    apply (quiet_modifyNode st id Node.clearFailFlag (fun _ => rfl)
      fun n x hx _ => (List.mem_filter.mp hx).1).trans
    refine ⟨rfl, fun _ h _ => h, ?_, fun _ _ _ h => h, fun _ h => h, rfl, fun h => h⟩
    intro id'
    by_cases heq : id' = id
    · subst heq
      simp
    · simp [heq, modifyNode]
  rw [recoverFailedNode]
  split
  · exact .refl st
  · dsimp only
    split
    · exact hcleared
    · next ranges _ =>
      have hkept : Quiet P gone st { st.modifyNode id Node.clearFailFlag with
          pfailReports := Function.update st.pfailReports id ∅
          usurped := Function.update st.usurped id none } := by
        apply hcleared.trans
        exact ⟨rfl, fun _ h _ => h, fun _ => Finset.Subset.refl _, fun _ _ _ h => h,
          fun _ h => update_ne_none h, rfl, fun h => h⟩
      have hback := hkept.trans (quiet_foldl (f := fun st slot => st.giveBack id slot)
        (ranges.flatMap SlotRange.toList) _ fun st slot _ => quiet_giveBack st id slot)
      split
      · apply hback.trans
        exact (quiet_rebuildMyselfSlotRanges _).trans (quiet_raiseEpoch _ id)
      · exact hback

theorem quiet_heard (st : State) (now : Int) (id : Bytes) : Quiet P gone st (st.heard now id) := by
  rw [heard]
  split
  · apply (quiet_modifyNode st id ({ · with pongRecv := now }) (fun _ => rfl) fun _ _ h _ => h).trans
    exact quiet_recoverFailedNode _ id
  · exact .refl st

/-- `checkFailures` marks the nodes that timed out, and forgets the stale ones. -/
theorem quiet_checkFailures (st : State) (now : Int)
    (hmarks : ∀ (id : Bytes) (n : Node), st.nodes[id]? = some n → id ≠ st.myself → n.TimedOut now →
      ¬ P id .pfail)
    (hgone : ∀ (id : Bytes) (n : Node), st.nodes[id]? = some n → id ≠ st.myself → n.Stale now →
      gone id) : Quiet P gone st (st.checkFailures now) := by
  let mark (id : Bytes) (n : Node) : Node :=
    if id ≠ st.myself ∧ ¬ n.hasFailFlag ∧ n.TimedOut now then n.markPFail else n
  have hmarked : Quiet P gone st { st with nodes := st.nodes.map mark } := by
    refine ⟨rfl, ?_, fun _ => Finset.Subset.refl _, ?_, fun _ h => h, rfl, ?_⟩
    · intro id hid _
      rw [mem_iff_isSome_getElem?, Std.ExtTreeMap.getElem?_map, isSome_map]
      exact mem_iff_isSome_getElem?.mp hid
    · intro id f hP hf
      obtain ⟨n, hn, hf⟩ := hf
      rw [Std.ExtTreeMap.getElem?_map] at hn
      obtain ⟨m, hm, rfl⟩ := map_eq_some_iff.mp hn
      refine ⟨m, hm, ?_⟩
      have hf' : f ∈ (if id ≠ st.myself ∧ ¬ m.hasFailFlag ∧ m.TimedOut now then m.markPFail
        else m).flags := hf
      split at hf'
      · next hsilent =>
        rw [Node.markPFail, if_neg hsilent.2.1, mem_append, mem_singleton] at hf'
        rcases hf' with hf' | rfl
        · exact hf'
        · exact absurd hP (hmarks id m hm hsilent.1 hsilent.2.2)
      · exact hf'
    · intro hkeyed id n hn
      rw [Std.ExtTreeMap.getElem?_map] at hn
      obtain ⟨m, hm, rfl⟩ := map_eq_some_iff.mp hn
      have hid : (mark id m).id = m.id := by
        dsimp only [mark]
        split
        · rw [Node.markPFail]
          split <;> rfl
        · rfl
      rw [hid]
      exact hkeyed id m hm
  apply hmarked.trans
  apply quiet_foldl
  intro st' id hid
  apply quiet_removeNode
  rw [Std.ExtTreeMap.mem_keys, mem_iff_isSome_getElem?, Std.ExtTreeMap.getElem?_filter] at hid
  obtain ⟨n, hn⟩ := isSome_iff_exists.mp hid
  obtain ⟨hget, hcond⟩ := pfilter_eq_some_iff.mp hn
  obtain ⟨hne, hstale⟩ := of_decide_eq_true hcond
  rw [getKey_eq] at hne
  rw [Std.ExtTreeMap.getElem?_map] at hget
  obtain ⟨m, hm, rfl⟩ := map_eq_some_iff.mp hget
  apply hgone id m hm hne
  -- the mark does not change the times
  split at hstale
  · rw [Node.markPFail] at hstale
    split at hstale <;> exact hstale
  · exact hstale

/-! ## Gossip in front of the reports -/

theorem quiet_mergeInfo (now : Int) (st : State) (gi : NodeInfo)
    (hlearned : gi.id ∉ st.nodes → ∀ f ∈ gi.flags, ¬ P gi.id f) :
    Quiet P gone st (st.mergeInfo now gi) := by
  have hrecover : ∀ (st : State) (c : Prop) [Decidable c],
      Quiet P gone st (if c then st.recoverFailedNode gi.id else st) := by
    intro st c _
    split
    · exact quiet_recoverFailedNode st gi.id
    · exact .refl st
  rw [mergeInfo]
  split
  · exact .refl st
  · split
    · have hmerged : Quiet P gone st
          (st.modifyNode gi.id (·.mergeGossipState gi.epoch gi.pongRecv)) :=
        quiet_modifyNode st gi.id _ (fun _ => rfl) fun _ _ h _ => h
      exact (hmerged.trans (hrecover _ _)).trans (hrecover _ _)
    · next hnew =>
      split
      · exact .refl st
      · exact quiet_insertNode rfl (hlearned hnew)

theorem quiet_foldl_mergeInfo (now : Int) (st : State) (infos : List NodeInfo)
    (hlearned : ∀ gi ∈ infos, gi.id ∉ st.nodes → ∀ f ∈ gi.flags, ¬ P gi.id f) :
    Quiet P (fun _ => False) st (infos.foldl (mergeInfo now) st) := by
  induction infos generalizing st with
  | nil => exact .refl st
  | cons gi infos ih =>
    have hstep : Quiet P (fun _ => False) st (st.mergeInfo now gi) :=
      quiet_mergeInfo now st gi (hlearned gi mem_cons_self)
    apply hstep.trans
    apply ih
    intro gi' hgi' hnew
    -- a node that is unknown now was unknown before
    apply hlearned gi' (mem_cons_of_mem gi hgi')
    exact fun hknown => hnew (hstep.known gi'.id hknown not_false)

theorem quiet_reconcile (st : State) (c : Claim) : Quiet P gone st (st.reconcile c) := by
  rw [reconcile]
  split
  · exact quiet_give st c.slot c.slot c.nodeID
  · exact .refl st

theorem quiet_clearMigration (st : State) (c : Claim) : Quiet P gone st (st.clearMigration c) := by
  have hclear : Quiet P gone st (st.clearSlotMigration c.slot) := quiet_of_eq rfl rfl rfl rfl rfl
  rw [clearMigration]
  split_ifs
  · exact hclear
  · exact .refl st
  · exact hclear
  · exact .refl st

theorem quiet_applyOwners (st : State) (now : Int) (p : Payload)
    (hlearned : ∀ gi ∈ p.nodes, gi.id ∉ st.nodes → ∀ f ∈ gi.flags, ¬ P gi.id f) :
    Quiet P (fun _ => False) st (st.applyOwners now p) := by
  apply (quiet_of_eq rfl rfl rfl rfl rfl :
    Quiet P (fun _ => False) st { st with epoch := max st.epoch p.epoch }).trans
  apply (quiet_foldl_mergeInfo now { st with epoch := max st.epoch p.epoch } p.nodes hlearned).trans
  apply (quiet_foldl p.claims _ fun st c _ => quiet_reconcile st c).trans
  exact quiet_foldl p.claims _ fun st c _ => quiet_clearMigration st c

/-! ## Reports -/

/-- What a report about `id` can do: it is noted, and it may lead to the mark FAIL and to a takeover. -/
structure Reported (reporter id : Bytes) (st st' : State) : Prop where
  myself : st'.myself = st.myself
  known : ∀ id', id' ∈ st'.nodes ↔ id' ∈ st.nodes
  reports : ∀ id', ∀ r ∈ st'.pfailReports id', r ∈ st.pfailReports id' ∨ id' = id ∧ r = reporter
  flags : ∀ id' f, st'.HasFlag id' f → st.HasFlag id' f ∨ id' = id ∧ Fails reporter st id
  usurped : ∀ id', st'.usurped id' ≠ none →
    st.usurped id' ≠ none ∨ id' = id ∧ Fails reporter st id ∧ st.slotsOf id ≠ []
  saved : st'.saved = st.saved
  keyed : st.Keyed → st'.Keyed

theorem mem_insert_update {f : Bytes → Finset Bytes} {r : Bytes}
    (h : r ∈ Function.update f id (insert reporter (f id)) id') :
    r ∈ f id' ∨ id' = id ∧ r = reporter := by
  by_cases heq : id' = id
  · subst heq
    rw [update_self, Finset.mem_insert] at h
    exact h.symm.imp_right fun hr => ⟨rfl, hr⟩
  · rw [update_of_ne heq] at h
    exact .inl h

/-- A takeover is about slots, but for the list of what was taken. -/
theorem quiet_usurpFailedNodeSlots (st : State) (id : Bytes) :
    Quiet P gone st { st.usurpFailedNodeSlots id with usurped := st.usurped } := by
  rw [usurpFailedNodeSlots]
  split
  · exact .refl st
  · have htake : Quiet P gone st (st.takeSlotsOf id) := quiet_takeSlotsOf st id
    exact { htake with usurped := fun _ h => h }

theorem usurped_usurpFailedNodeSlots (h : (st.usurpFailedNodeSlots id).usurped id' ≠ none) :
    st.usurped id' ≠ none ∨ id' = id ∧ st.slotsOf id ≠ [] := by
  rw [usurpFailedNodeSlots] at h
  split at h
  · exact .inl h
  · next htaken =>
    by_cases heq : id' = id
    · exact .inr ⟨heq, htaken⟩
    · have hquiet : Quiet (fun _ _ => True) (fun _ => False) st (st.takeSlotsOf id) :=
        quiet_takeSlotsOf st id
      dsimp only at h
      rw [update_of_ne heq] at h
      exact .inl (hquiet.usurped id' h)

theorem mem_usurpFailedNodeSlots : id' ∈ (st.usurpFailedNodeSlots id).nodes ↔ id' ∈ st.nodes := by
  rw [usurpFailedNodeSlots]
  split
  · rfl
  · dsimp only
    rw [takeSlotsOf_eq, mem_foldl_give]

theorem reported_markFail (hfails : Fails reporter st id) :
    Reported reporter id st (State.markFail { st with
      pfailReports := Function.update st.pfailReports id (insert reporter (st.pfailReports id)) } id) := by
  let promoted : State := State.modifyNode { st with
    pfailReports := Function.update st.pfailReports id (insert reporter (st.pfailReports id)) } id
      Node.promote
  have hquiet : Quiet (fun _ _ => True) (fun _ => False) promoted
      { promoted.usurpFailedNodeSlots id with usurped := promoted.usurped } :=
    quiet_usurpFailedNodeSlots promoted id
  refine ⟨hquiet.myself, ?_, ?_, ?_, ?_, hquiet.saved, ?_⟩
  · intro id'
    exact mem_usurpFailedNodeSlots.trans mem_modifyNode
  · intro id' r hr
    -- the reports about the node are cleared, the others are as they were
    have hr' : r ∈ Function.update (promoted.usurpFailedNodeSlots id).pfailReports id ∅ id' := hr
    by_cases heq : id' = id
    · rw [heq, update_self] at hr'
      exact absurd hr' (Finset.notMem_empty r)
    · rw [update_of_ne heq] at hr'
      exact mem_insert_update (hquiet.reports id' hr')
  · intro id' f hf
    by_cases heq : id' = id
    · exact .inr ⟨heq, hfails⟩
    · obtain ⟨n, hn, hf⟩ := hquiet.flags id' f trivial hf
      rw [getElem?_modifyNode, if_neg fun h => heq h.symm] at hn
      exact .inl ⟨n, hn, hf⟩
  · intro id' h
    rcases usurped_usurpFailedNodeSlots h with hold | ⟨heq, htaken⟩
    · exact .inl hold
    · have hsame : promoted.slots = st.slots := rfl
      have hslots := slotsOf_congr hsame id
      exact .inr ⟨heq, hfails, hslots ▸ htaken⟩
  · intro hkeyed
    exact hquiet.keyed (keyed_modifyNode (fun _ => rfl) hkeyed)

theorem hasFlag_modifyNode {f : Node → Node} {x : Flag} (hf : ∀ n, x ∈ n.flags → x ∈ (f n).flags)
    (h : st.HasFlag id' x) : (st.modifyNode id f).HasFlag id' x := by
  obtain ⟨n, hn, hx⟩ := h
  rw [HasFlag, getElem?_modifyNode]
  split
  · exact ⟨f n, by rw [hn, map_some], hf n hx⟩
  · exact ⟨n, hn, hx⟩

theorem hasFlag_takeSlotsOf {x : Flag} (h : st.HasFlag id' x) :
    (st.takeSlotsOf id).HasFlag id' x := by
  rw [takeSlotsOf]
  generalize st.slotsOf id = slots
  induction slots generalizing st with
  | nil => exact h
  | cons slot slots ih =>
    exact ih (hasFlag_modifyNode (fun _ hx => hx) h)

/-- A report that reaches the threshold marks the node FAIL. -/
theorem hasFlag_report (hfails : Fails reporter st id) :
    (st.report reporter id).HasFlag id .fail := by
  obtain ⟨hknown, hpromotes⟩ := hfails
  rw [report, if_neg hknown]
  rw [if_pos hpromotes]
  obtain ⟨n, hn, -, -⟩ := hpromotes.2
  have hpromoted : (State.modifyNode { st with
      pfailReports := Function.update st.pfailReports id (insert reporter (st.pfailReports id)) } id
        Node.promote).HasFlag id .fail := by
    refine ⟨n.promote, ?_, ?_⟩
    · rw [getElem?_modifyNode, if_pos rfl, hn, map_some]
    · simp [Node.promote]
  rw [markFail, usurpFailedNodeSlots]
  split
  · exact hpromoted
  · exact hasFlag_takeSlotsOf hpromoted

theorem reported_report (reporter : Bytes) (st : State) (id : Bytes) :
    Reported reporter id st (st.report reporter id) := by
  rcases report_cases reporter st id with heq | heq | ⟨hfails, heq⟩
  · rw [heq]
    exact ⟨rfl, fun _ => Iff.rfl, fun _ _ h => .inl h, fun _ _ h => .inl h, fun _ h => .inl h, rfl,
      fun h => h⟩
  · rw [heq]
    exact ⟨rfl, fun _ => Iff.rfl, fun _ _ h => mem_insert_update h, fun _ _ h => .inl h,
      fun _ h => .inl h, rfl, fun h => h⟩
  · rw [heq]
    exact reported_markFail hfails

/-! ## What a payload can lead to

A payload first merges what it says about nodes and slots and then notes its reports, each in the state that
the one before has left. Whether it can make a node FAIL can be told from the state in which it comes in. -/

theorem failFlag_iff : st.failFlag id = true ↔ st.HasFlag id .fail ∨ st.HasFlag id .pfail := by
  rw [failFlag, Option.any_eq_true]
  simp only [Node.hasFailFlag, Bool.or_eq_true, decide_eq_true_eq, and_or_left, exists_or]
  rfl

/-- A node that is not marked is not promoted. -/
theorem failFlag_of_fails (hfails : Fails reporter st id) : st.failFlag id = true := by
  obtain ⟨-, -, n, hn, hflag, -⟩ := hfails
  rw [failFlag, Option.any_eq_true]
  exact ⟨n, hn, hflag⟩

/-- The node is marked already, or the payload brings it in with a mark. -/
def MarkedWith (st : State) (p : Payload) (id : Bytes) : Prop :=
  st.failFlag id = true ∨
    id ∉ st.nodes ∧ ∃ gi ∈ p.nodes, gi.id = id ∧ (Flag.fail ∈ gi.flags ∨ Flag.pfail ∈ gi.flags)

/-- The payload reports the node, which is marked, and its report makes the reports enough. -/
def MayFail (st : State) (reporter : Bytes) (p : Payload) (id : Bytes) : Prop :=
  reporter ≠ [] ∧ id ∈ p.pfail ∧ st.MarkedWith p id ∧
    st.threshold ≤ (insert reporter (st.pfailReports id)).card

instance (st : State) (p : Payload) (id : Bytes) : Decidable (st.MarkedWith p id) :=
  inferInstanceAs (Decidable (_ ∨ _))

instance (st : State) (reporter : Bytes) (p : Payload) (id : Bytes) :
    Decidable (st.MayFail reporter p id) :=
  inferInstanceAs (Decidable (_ ∧ _))

/-- A state on the way through a payload. -/
structure Amid (reporter : Bytes) (p : Payload) (st st' : State) : Prop where
  myself : st'.myself = st.myself
  known : ∀ id ∈ st.nodes, id ∈ st'.nodes
  marks : ∀ id, st'.failFlag id = true → st.MarkedWith p id
  reports : ∀ id, st'.pfailReports id ⊆ insert reporter (st.pfailReports id)

theorem amid_applyOwners (st : State) (now : Int) (reporter : Bytes) (p : Payload) :
    Amid reporter p st (st.applyOwners now p) := by
  -- of a node that is not marked with the payload, no mark is looked away from
  have hquiet : Quiet (fun id f => (f = .fail ∨ f = .pfail) ∧ ¬ st.MarkedWith p id) (fun _ => False)
      st (st.applyOwners now p) := by
    apply quiet_applyOwners
    rintro gi hgi hnew f hf ⟨rfl | rfl, hnot⟩
    · exact hnot (.inr ⟨hnew, gi, hgi, rfl, .inl hf⟩)
    · exact hnot (.inr ⟨hnew, gi, hgi, rfl, .inr hf⟩)
  refine ⟨hquiet.myself, fun id hid => hquiet.known id hid not_false, fun id hflag => ?_, fun id => ?_⟩
  · by_contra hnot
    refine hnot (.inl (failFlag_iff.mpr ?_))
    exact (failFlag_iff.mp hflag).imp (hquiet.flags id .fail ⟨.inl rfl, hnot⟩)
      (hquiet.flags id .pfail ⟨.inr rfl, hnot⟩)
  · exact (hquiet.reports id).trans (Finset.subset_insert _ _)

theorem Amid.report {p : Payload} {st' : State} (h : Amid reporter p st st') (id : Bytes) :
    Amid reporter p st (st'.report reporter id) := by
  have heffect := reported_report reporter st' id
  refine ⟨heffect.myself.trans h.myself, fun id' hid' => (heffect.known id').mpr (h.known id' hid'),
    fun id' hflag => h.marks id' ?_, fun id' r hr => ?_⟩
  · -- FAIL comes on top of a mark
    have hold : ∀ f, (st'.report reporter id).HasFlag id' f →
        st'.HasFlag id' f ∨ st'.failFlag id' = true := fun f hf =>
      (heffect.flags id' f hf).imp_right fun ⟨heq, hfails⟩ => heq ▸ failFlag_of_fails hfails
    rcases failFlag_iff.mp hflag with hf | hf
    · exact (hold _ hf).elim (fun hf => failFlag_iff.mpr (.inl hf)) fun hflag => hflag
    · exact (hold _ hf).elim (fun hf => failFlag_iff.mpr (.inr hf)) fun hflag => hflag
  · rcases heffect.reports id' r hr with hr | ⟨-, rfl⟩
    · exact h.reports id' hr
    · exact Finset.mem_insert_self _ _

theorem size_nodes (st : State) : st.nodes.size = st.nodes.keys.toFinset.card := by
  have hnodup : st.nodes.keys.Nodup := by
    apply List.Pairwise.imp _ st.nodes.distinct_keys
    intro a b hne heq
    exact hne (heq ▸ Std.ReflCmp.compare_self)
  rw [toFinset_card_of_nodup hnodup, length_keys]

/-- A node that knows more nodes asks for more reports. -/
theorem Amid.threshold_le {p : Payload} {st' : State} (h : Amid reporter p st st') :
    st.threshold ≤ st'.threshold := by
  have hsub : (st.nodes.erase st.myself).keys.toFinset ⊆ (st'.nodes.erase st'.myself).keys.toFinset := by
    intro id hid
    rw [List.mem_toFinset, Std.ExtTreeMap.mem_keys, mem_erase] at hid ⊢
    rw [h.myself]
    exact ⟨hid.1, h.known id hid.2⟩
  have hcard := Finset.card_le_card hsub
  have hsize := size_nodes { st with nodes := st.nodes.erase st.myself }
  have hsize' := size_nodes { st' with nodes := st'.nodes.erase st'.myself }
  dsimp only at hsize hsize'
  rw [← hsize, ← hsize'] at hcard
  rw [threshold, threshold]
  omega

/-- What makes a node FAIL on the way could be told before. -/
theorem Amid.mayFail {p : Payload} {st' : State} (h : Amid reporter p st st') (hsender : reporter ≠ [])
    (hid : id ∈ p.pfail) (hfails : Fails reporter st' id) : st.MayFail reporter p id := by
  refine ⟨hsender, hid, h.marks id (failFlag_of_fails hfails), h.threshold_le.trans ?_⟩
  have hmany := hfails.2.1
  dsimp only [threshold] at hmany ⊢
  rw [update_self] at hmany
  refine hmany.trans (Finset.card_le_card ?_)
  exact Finset.insert_subset (Finset.mem_insert_self _ _) (h.reports id)

/-! ## Restarts -/

/-- Nothing is known of failures but what is saved. -/
theorem quiet_loadState (st : State) (now : Int) (cfg : Config) :
    Quiet P gone { fresh st.myself st.addr now with
      nodes := cfg.nodes.foldl (loadNode now) (fresh st.myself st.addr now).nodes
      epoch := cfg.epoch
      usurped := cfg.usurped
      migrating := cfg.migrating
      importing := cfg.importing
      saved := some cfg } (st.loadState now cfg) :=
  quiet_foldl cfg.owners _ fun st o _ => quiet_give st o.1.start o.1.stop _

end

end State

end BoltDB.Cluster.Topology
