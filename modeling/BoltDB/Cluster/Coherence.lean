import BoltDB.Cluster.Flags

/-!
# Coherence along runs

A run keeps the table and the ranges together as long as nobody gives away a slot that another known node
holds. For a payload this is said by the state in which it comes in. On the way through the payload slots
may go back to nodes that are heard of again, and their epochs are raised for it; so a claim that does not
beat the owner of a slot when the payload comes in does not beat the one who owns it by then.

* `Returns` — what the gossip section of a payload does to the table and the epochs.
* `ClaimKeeps`, `PayloadKeeps` — the condition on a payload.
* `slot_ranges_agree` — the records agree in every run whose steps meet the condition.
-/

namespace BoltDB.Cluster.Topology

open Bytes Transition List Std.ExtTreeMap Function

namespace State

-- a goal must not be decided by going through all slots
attribute [local irreducible] slotsOf

variable {E : Int} {id : Bytes} {now : Int} {p : Payload} {reporter : Bytes} {st st' : State}

/-! ## Epochs -/

theorem ownerEpoch_modifyNode (st : State) (id : Bytes) {f : Node → Node}
    (hf : ∀ n, n.epoch ≤ (f n).epoch) (id' : Bytes) : st.ownerEpoch id' ≤ (st.modifyNode id f).ownerEpoch id' := by
  rw [ownerEpoch, ownerEpoch, getElem?_modifyNode]
  split
  · cases st.nodes[id']? with
    | none => exact le_refl _
    | some n => exact hf n
  · exact le_refl _

theorem ownerEpoch_modifyNode_eq (st : State) (id : Bytes) {f : Node → Node}
    (hf : ∀ n, (f n).epoch = n.epoch) (id' : Bytes) :
    (st.modifyNode id f).ownerEpoch id' = st.ownerEpoch id' := by
  rw [ownerEpoch, ownerEpoch, getElem?_modifyNode]
  split
  · cases st.nodes[id']? with
    | none => rfl
    | some n => exact hf n
  · rfl

theorem ownerEpoch_give (st : State) (start stop : Nat) (id id' : Bytes) :
    (st.give start stop id).ownerEpoch id' = st.ownerEpoch id' :=
  ownerEpoch_modifyNode_eq st id (f := (·.addRange start stop)) (fun _ => rfl) id'

theorem ownerEpoch_rebuild (st : State) (id : Bytes) :
    st.rebuildMyselfSlotRanges.ownerEpoch id = st.ownerEpoch id :=
  ownerEpoch_modifyNode_eq st st.myself
    (f := fun n => { n with slots := mergeSorted (st.slotsOf st.myself) }) (fun _ => rfl) id

theorem ownerEpoch_raiseEpoch_self (hid : id ∈ st.nodes) :
    (st.raiseEpoch id).ownerEpoch id = st.epoch + 1 := by
  obtain ⟨n, hn⟩ := mem_nodes_iff.mp hid
  show (st.modifyNode id _).ownerEpoch id = _
  rw [ownerEpoch, getElem?_modifyNode, if_pos rfl, hn]
  rfl

theorem ownerEpoch_raiseEpoch_of_ne {id' : Bytes} (hne : id' ≠ id) :
    (st.raiseEpoch id).ownerEpoch id' = st.ownerEpoch id' := by
  show (st.modifyNode id _).ownerEpoch id' = _
  rw [ownerEpoch, getElem?_modifyNode, if_neg fun heq => hne heq.symm, ownerEpoch]

theorem foldl_giveBack_epochs (st : State) (id : Bytes) (l : List Nat) :
    (l.foldl (·.giveBack id ·) st).epoch = st.epoch ∧
      ∀ id', (l.foldl (·.giveBack id ·) st).ownerEpoch id' = st.ownerEpoch id' := by
  induction l generalizing st with
  | nil => exact ⟨rfl, fun _ => rfl⟩
  | cons slot l ih =>
    have hone : (st.giveBack id slot).epoch = st.epoch ∧
        ∀ id', (st.giveBack id slot).ownerEpoch id' = st.ownerEpoch id' := by
      rw [giveBack]
      split
      · exact ⟨rfl, ownerEpoch_give st slot slot id⟩
      · exact ⟨rfl, fun _ => rfl⟩
    obtain ⟨hepoch, hepochs⟩ := ih (st.giveBack id slot)
    exact ⟨hepoch.trans hone.1, fun id' => (hepochs id').trans (hone.2 id')⟩

/-! ## The gossip section -/

/-- Slots of the node itself may go back to nodes they were taken from, which then have an epoch above `E`.
No epoch falls to `E` or below. -/
structure Returns (E : Int) (st st' : State) : Prop where
  quiet : Quiet (fun _ _ => False) (fun _ => False) st st'
  epoch : E ≤ st'.epoch
  epochs : ∀ id ∈ st.nodes, ∀ e ≤ E + 1, e ≤ st.ownerEpoch id → e ≤ st'.ownerEpoch id
  slots : ∀ slot, st'.slots slot = st.slots slot ∨ st.slots slot = some st.myself ∧
    ∃ id ∈ st'.nodes, st'.slots slot = some id ∧ E < st'.ownerEpoch id ∧ st.usurped id ≠ none

/-- A change by which epochs only go up, and the table stays. -/
theorem returns_of_slots_eq (hE : E ≤ st'.epoch)
    (hquiet : Quiet (fun _ _ => False) (fun _ => False) st st') (hslots : st'.slots = st.slots)
    (hepochs : ∀ id ∈ st.nodes, st.ownerEpoch id ≤ st'.ownerEpoch id) : Returns E st st' where
  quiet := hquiet
  epoch := hE
  epochs id hid _ _ he := he.trans (hepochs id hid)
  slots slot := .inl (congrFun hslots slot)

theorem Returns.refl (hE : E ≤ st.epoch) : Returns E st st :=
  returns_of_slots_eq hE (.refl st) rfl fun _ _ => le_refl _

theorem Returns.trans {st'' : State} (h : Returns E st st') (h' : Returns E st' st'') :
    Returns E st st'' where
  quiet := h.quiet.trans h'.quiet
  epoch := h'.epoch
  epochs id hid e hle he := h'.epochs id (h.quiet.known id hid not_false) e hle (h.epochs id hid e hle he)
  slots slot := by
    rcases h'.slots slot with heq | ⟨hmine, id, hid, howner, hepoch, husurped⟩
    · rcases h.slots slot with heq' | ⟨hmine, id, hid, howner, hepoch, husurped⟩
      · exact .inl (heq.trans heq')
      · refine .inr ⟨hmine, id, h'.quiet.known id hid not_false, heq.trans howner, ?_, husurped⟩
        have := h'.epochs id hid (E + 1) (le_refl _) (by omega)
        omega
    · -- what the node itself holds now it held before, or got back from a node with its own ID
      refine .inr ⟨?_, id, hid, howner, hepoch, h.quiet.usurped id husurped⟩
      rcases h.slots slot with heq | ⟨hmine, -⟩
      · rw [← heq, hmine, h.quiet.myself]
      · exact hmine

/-- A node whose slots go back gets an epoch above all that are known. -/
theorem returns_giveBack {k : State} (hE : E ≤ st.epoch) (hid : id ∈ k.nodes)
    (husurped : st.usurped id ≠ none) (hepoch : k.epoch = st.epoch) (hslots : k.slots = st.slots)
    (hme : k.myself = st.myself) (hepochs : ∀ id', k.ownerEpoch id' = st.ownerEpoch id') (l : List Nat)
    (hquiet : Quiet (fun _ _ => False) (fun _ => False) st
      ((l.foldl (·.giveBack id ·) k).rebuildMyselfSlotRanges.raiseEpoch id)) :
    Returns E st ((l.foldl (·.giveBack id ·) k).rebuildMyselfSlotRanges.raiseEpoch id) := by
  obtain ⟨hback, hbacks⟩ := foldl_giveBack_epochs k id l
  have hknown : id ∈ (l.foldl (·.giveBack id ·) k).rebuildMyselfSlotRanges.nodes :=
    mem_modifyNode.mpr (mem_foldl_giveBack.mpr hid)
  have hnew : E < (State.raiseEpoch (l.foldl (·.giveBack id ·) k).rebuildMyselfSlotRanges id).ownerEpoch
      id := by
    rw [ownerEpoch_raiseEpoch_self hknown]
    show E < (l.foldl (·.giveBack id ·) k).epoch + 1
    omega
  refine ⟨hquiet, ?_, fun id' _ e hle he => ?_, fun slot => ?_⟩
  · show E ≤ (l.foldl (·.giveBack id ·) k).epoch + 1
    omega
  · by_cases hsame : id' = id
    · subst hsame
      omega
    · rw [ownerEpoch_raiseEpoch_of_ne hsame, ownerEpoch_rebuild, hbacks, hepochs]
      exact he
  · have htable : (l.foldl (·.giveBack id ·) k).slots slot = _ := foldl_giveBack_slots k l slot
    rw [hslots, hme] at htable
    by_cases hmine : slot ∈ l ∧ st.slots slot = some st.myself
    · rw [if_pos hmine] at htable
      exact .inr ⟨hmine.2, id, mem_modifyNode.mpr hknown, htable, hnew, husurped⟩
    · rw [if_neg hmine] at htable
      exact .inl htable

theorem returns_recoverFailedNode (hE : E ≤ st.epoch) (id : Bytes) :
    Returns E st (st.recoverFailedNode id) := by
  have hquiet : Quiet (fun _ _ => False) (fun _ => False) st (st.recoverFailedNode id) :=
    quiet_recoverFailedNode st id
  have hcleared : ∀ id', (st.modifyNode id Node.clearFailFlag).ownerEpoch id' = st.ownerEpoch id' :=
    ownerEpoch_modifyNode_eq st id fun _ => rfl
  rw [recoverFailedNode] at hquiet ⊢
  cases hnode : st.nodes[id]? with
  | none => exact .refl hE
  | some node =>
    rw [hnode] at hquiet
    have hid : id ∈ st.nodes := mem_nodes_iff.mpr ⟨node, hnode⟩
    cases husurped : st.usurped id with
    | none =>
      rw [husurped] at hquiet
      exact returns_of_slots_eq hE hquiet rfl fun id' _ => (hcleared id').ge
    | some ranges =>
      rw [husurped] at hquiet
      dsimp only at hquiet ⊢
      split at hquiet
      · next hback =>
        rw [if_pos hback]
        exact returns_giveBack (k := { st.modifyNode id Node.clearFailFlag with
            pfailReports := Function.update st.pfailReports id ∅
            usurped := Function.update st.usurped id none })
          hE (mem_modifyNode.mpr hid) (by simp [husurped]) rfl rfl rfl hcleared _ hquiet
      · next hnot =>
        have hnone : ∀ k : State, k.slots = st.slots → k.myself = st.myself →
            (ranges.flatMap SlotRange.toList).foldl (·.giveBack id ·) k = k := fun k hslots hme =>
          foldl_giveBack_of_none fun hmine => hnot (.inr (by rwa [hslots, hme] at hmine))
        rw [if_neg hnot]
        have hend := hnone { st.modifyNode id Node.clearFailFlag with
            pfailReports := Function.update st.pfailReports id ∅
            usurped := Function.update st.usurped id none } rfl rfl
        refine returns_of_slots_eq ?_ hquiet ?_ fun id' _ => ?_
        · rw [hend]
          exact hE
        · rw [hend]
          rfl
        · rw [hend]
          exact (hcleared id').ge

theorem Returns.recover_ite (h : Returns E st st') (P : Prop) [Decidable P] (id : Bytes) :
    Returns E st (if P then st'.recoverFailedNode id else st') := by
  split
  · exact h.trans (returns_recoverFailedNode h.epoch id)
  · exact h

theorem returns_mergeInfo (hE : E ≤ st.epoch) (now : Int) (gi : NodeInfo) :
    Returns E st (st.mergeInfo now gi) := by
  rw [mergeInfo]
  split
  · exact .refl hE
  · split
    · have hmerged : Returns E st (st.modifyNode gi.id (·.mergeGossipState gi.epoch gi.pongRecv)) :=
        returns_of_slots_eq hE (quiet_modifyNode st gi.id _ (fun _ => rfl) fun _ _ hf _ => hf) rfl
          fun id' _ => ownerEpoch_modifyNode st gi.id (fun n => le_max_left n.epoch gi.epoch) id'
      exact Returns.recover_ite (hmerged.recover_ite _ gi.id) _ gi.id
    · next hnew =>
      split
      · exact .refl hE
      · refine returns_of_slots_eq hE (quiet_insertNode rfl fun _ _ => not_false) rfl fun id' hid' => ?_
        have hne : gi.id ≠ id' := fun heq => hnew (heq ▸ hid')
        have hget : ∀ n : Node, (st.nodes.insert gi.id n)[id']? = st.nodes[id']? := fun n => by
          rw [Std.ExtTreeMap.getElem?_insert, if_neg (by simpa using hne)]
        rw [ownerEpoch, ownerEpoch, hget]

theorem returns_beforeClaims (st : State) (now : Int) (p : Payload) :
    Returns (max st.epoch p.epoch) { st with epoch := max st.epoch p.epoch } (st.beforeClaims now p) := by
  have hfold : ∀ {E : Int} (l : List NodeInfo) (st : State), E ≤ st.epoch →
      Returns E st (l.foldl (mergeInfo now) st) := by
    intro E l
    induction l with
    | nil => exact fun st hE => .refl hE
    | cons gi l ih =>
      intro st hE
      have hone := returns_mergeInfo hE now gi
      exact hone.trans (ih _ hone.epoch)
  exact hfold p.nodes _ (le_refl _)

/-! ## Claims -/

/-- The condition on a claim. A claim on a slot with an owner names the owner, or has no newer epoch than
the owner; and it is at most one ahead of the epochs of the two nodes. The claims on a slot without an owner
name one node. -/
def ClaimKeeps (st : State) (p : Payload) (c : Claim) : Prop :=
  (∀ o, st.slots c.slot = some o →
      (o = c.nodeID ∨ c.epoch ≤ st.ownerEpoch o) ∧ c.epoch ≤ max st.epoch p.epoch + 1) ∧
    (st.slots c.slot = none → ∀ c' ∈ p.claims, c'.slot = c.slot → c'.nodeID = c.nodeID)

/-- A state on the way through the claims: no claim of the payload beats an owner. -/
structure Unbeaten (st : State) (p : Payload) (st' : State) : Prop where
  claims : ∀ c ∈ p.claims, ∀ o, st'.slots c.slot = some o → o = c.nodeID ∨ c.epoch ≤ st'.ownerEpoch o
  free : ∀ slot, st'.slots slot = none → st.slots slot = none

theorem unbeaten_beforeClaims (hinv : st.Inv) (hok : ∀ c ∈ p.claims, st.ClaimKeeps p c) (now : Int) :
    Unbeaten st p (st.beforeClaims now p) := by
  have hreturns := returns_beforeClaims st now p
  refine ⟨fun c hc o howner => ?_, fun slot hnone => ?_⟩
  · rcases hreturns.slots c.slot with heq | ⟨hmine, id, hid, howner', hepoch, -⟩
    · have hold : st.slots c.slot = some o := heq.symm.trans howner
      obtain ⟨hbeaten, hbound⟩ := (hok c hc).1 o hold
      exact hbeaten.imp_right (hreturns.epochs o (hinv.owner _ o hold).2 c.epoch hbound)
    · -- the slot went back, and the epoch of its owner is new
      obtain rfl : id = o := Option.some.inj (howner'.symm.trans howner)
      have hbound := ((hok c hc).1 st.myself hmine).2
      exact .inr (by omega)
  · rcases hreturns.slots slot with heq | ⟨-, id, -, howner, -⟩
    · exact heq.symm.trans hnone
    · rw [hnone] at howner
      cases howner

theorem Unbeaten.reconcile (h : Unbeaten st p st') (hok : ∀ c ∈ p.claims, st.ClaimKeeps p c) {c : Claim}
    (hc : c ∈ p.claims) : (st'.Wins c → st'.slots c.slot = none) ∧ Unbeaten st p (st'.reconcile c) := by
  have hwins : st'.Wins c → st'.slots c.slot = none := by
    rintro ⟨hbeats, -, hother⟩
    by_contra hsome
    obtain ⟨o, howner⟩ := Option.ne_none_iff_exists'.mp hsome
    rcases h.claims c hc o howner with rfl | hle
    · exact hother howner
    · have := hbeats o howner
      omega
  refine ⟨hwins, ?_⟩
  rw [State.reconcile]
  split
  · next hwon =>
    have hnone := h.free c.slot (hwins hwon)
    have htable : ∀ slot, (st'.give c.slot c.slot c.nodeID).slots slot =
        if slot = c.slot then some c.nodeID else st'.slots slot := fun slot =>
      if_congr (by omega) rfl rfl
    refine ⟨fun c' hc' o howner => ?_, fun slot hfree => ?_⟩
    · rw [htable] at howner
      rw [ownerEpoch_give]
      by_cases hslot : c'.slot = c.slot
      · rw [if_pos hslot] at howner
        exact .inl ((Option.some.inj howner).symm.trans ((hok c hc).2 hnone c' hc' hslot).symm)
      · rw [if_neg hslot] at howner
        exact h.claims c' hc' o howner
    · rw [htable] at hfree
      split at hfree
      · cases hfree
      · exact h.free slot hfree
  · exact h

theorem Unbeaten.claimsKeep (h : Unbeaten st p st') (hok : ∀ c ∈ p.claims, st.ClaimKeeps p c)
    {cs : List Claim} (hcs : cs ⊆ p.claims) : ClaimsKeep st' cs := by
  induction cs generalizing st' with
  | nil => trivial
  | cons c cs ih =>
    obtain ⟨hwins, hnext⟩ := h.reconcile hok (hcs mem_cons_self)
    exact ⟨hwins, ih hnext fun _ hc => hcs (mem_cons_of_mem c hc)⟩

/-! ## Reports -/

/-- The condition on a payload. A node that it can make FAIL owns nothing, neither in the table, nor by the
list of what was taken from it, nor by a claim of the payload. -/
structure PayloadKeeps (st : State) (reporter : Bytes) (p : Payload) : Prop where
  claims : ∀ c ∈ p.claims, st.ClaimKeeps p c
  reports : ∀ id, st.MayFail reporter p id → st.usurped id = none ∧ (∀ slot, st.slots slot ≠ some id) ∧
    ∀ c ∈ p.claims, c.nodeID ≠ id

/-- A slot that a payload gives to a node was claimed. -/
theorem foldl_reconcile_slots {cs : List Claim} {slot : Nat}
    (h : (cs.foldl State.reconcile st).slots slot = some id) :
    st.slots slot = some id ∨ ∃ c ∈ cs, c.nodeID = id := by
  induction cs generalizing st with
  | nil => exact .inl h
  | cons c cs ih =>
    rcases ih h with howner | ⟨c', hc', hid⟩
    · rw [State.reconcile] at howner
      split at howner
      · rw [give_slots] at howner
        split at howner
        · exact .inr ⟨c, mem_cons_self, Option.some.inj howner⟩
        · exact .inl howner
      · exact .inl howner
    · exact .inr ⟨c', mem_cons_of_mem c hc', hid⟩

theorem PayloadKeeps.owns_nothing (h : st.PayloadKeeps reporter p) (hfail : st.MayFail reporter p id)
    (now : Int) (slot : Nat) : (st.applyOwners now p).slots slot ≠ some id := by
  obtain ⟨husurped, hnone, hclaims⟩ := h.reports id hfail
  intro howner
  have hsame := (sameOwners_foldl_clearMigration (p.claims.foldl State.reconcile (st.beforeClaims now p))
    p.claims).slots
  have hclaimed : (p.claims.foldl State.reconcile (st.beforeClaims now p)).slots slot = some id :=
    (congrFun hsame slot).symm.trans howner
  rcases foldl_reconcile_slots hclaimed with hbefore | ⟨c, hc, hid⟩
  · rcases (returns_beforeClaims st now p).slots slot with heq | ⟨-, id', -, howner', -, husurped'⟩
    · exact hnone slot (heq.symm.trans hbefore)
    · obtain rfl : id' = id := Option.some.inj (howner'.symm.trans hbefore)
      exact husurped' husurped
  · exact hclaims c hc hid

/-- The induction is over the reports that are still to come; those before have not changed the table. -/
theorem Amid.reportsKeep {ids : List Bytes} (h : Amid reporter p st st') (hsender : reporter ≠ [])
    (hids : ids ⊆ p.pfail)
    (hnone : ∀ id, st.MayFail reporter p id → ∀ slot, st'.slots slot ≠ some id) :
    ReportsKeep reporter st' ids := by
  induction ids generalizing st' with
  | nil => trivial
  | cons id ids ih =>
    have hfree : Fails reporter st' id → ∀ slot < slotCount, st'.slots slot ≠ some id := fun hfails slot _ =>
      hnone id (h.mayFail hsender (hids mem_cons_self) hfails) slot
    refine ⟨hfree, ih (h.report id) (fun _ hid => hids (mem_cons_of_mem id hid)) ?_⟩
    have hslots : (st'.report reporter id).slots = st'.slots := by
      rcases report_cases reporter st' id with heq | heq | ⟨hfails, heq⟩
      · rw [heq]
      · rw [heq]
      · rw [heq]
        refine Eq.trans (SameOwners.slots (sameOwners_markFail ?_)) rfl
        exact hfree hfails
    rw [hslots]
    exact hnone

theorem inv_applyGossipPayloadFrom (hinv : st.Inv) (hslots : ∀ c ∈ p.claims, c.slot < slotCount)
    (hok : st.PayloadKeeps reporter p) : (st.applyGossipPayloadFrom now reporter p).Inv := by
  have howners : (st.applyOwners now p).Inv :=
    inv_applyOwners hinv hslots
      ((unbeaten_beforeClaims hinv hok.claims now).claimsKeep hok.claims (Subset.refl _))
  rw [applyGossipPayloadFrom, applyReports]
  split
  · exact howners
  · next hsender =>
    apply inv_foldl_report howners
    exact (amid_applyOwners st now reporter p).reportsKeep hsender (Subset.refl _)
      fun id hfail slot => hok.owns_nothing hfail now slot

end State

/-! ## Runs -/

/-- The condition on a step: it gives no slot to a node while another known node holds it, it does not
remove a slot of another node from the table, and it does not replace the record of a known node. -/
def Condition (st : State) : Op → Prop
  | .assignSlot slot id => st.Free id slot
  | .assignSlotRange start stop id => ∀ slot, start ≤ slot → slot ≤ stop → st.Free id slot
  | .removeSlot slot => st.Free st.myself slot
  | .gossip _ reporter p => st.PayloadKeeps reporter p
  | .meet _ id _ => id ∉ st.nodes
  | _ => True

theorem inv_step {st st' : State} {op : Op} (hinv : st.Inv) (hok : Condition st op)
    (hstep : st.step op = some st') : st'.Inv := by
  cases op with
  | assignSlot slot id =>
    cases hstep
    exact State.inv_assignSlot hinv hok
  | assignSlotRange start stop id =>
    cases hstep
    exact State.inv_assignSlotRange hinv hok
  | removeSlot slot =>
    cases hstep
    exact State.inv_removeSlot hinv hok
  | meet now id addr =>
    cases hstep
    exact State.inv_insertNode hinv hok rfl
  | removeNode id =>
    rw [State.step] at hstep
    split at hstep
    · cases hstep
    · next hne =>
      rw [← Option.some.inj hstep]
      exact State.inv_removeNode hinv hne
  | heard now id =>
    cases hstep
    exact State.inv_heard hinv now id
  | gossip now reporter p =>
    rw [State.step] at hstep
    split at hstep
    · next hslots =>
      cases hstep
      exact State.inv_applyGossipPayloadFrom hinv hslots hok
    · cases hstep
  | checkFailures now =>
    cases hstep
    exact State.inv_checkFailures hinv now
  | save =>
    cases hstep
    exact hinv.congr (State.sameOwners_of_eq rfl rfl rfl)
  | restart now =>
    cases hstep
    cases st.saved with
    | none => exact State.inv_newCluster st.myself st.addr now
    | some cfg => exact State.inv_loadState st now cfg

/-- **Slot ownership.** In every run of a node whose steps meet the condition, the ranges of the known
nodes and the table agree. -/
theorem slot_ranges_agree {myself addr : Bytes} {now : Int} {ops : List Op} {st : State}
    (hrun : run State.step (State.newCluster myself addr now) ops = some st)
    (hok : Meets State.step Condition (State.newCluster myself addr now) ops) : st.Coherent :=
  (run_invariant (fun _ _ _ hinv hok hstep => inv_step hinv hok hstep)
    (State.inv_newCluster myself addr now) hok hrun).coherent

/-- The slot is removed before it goes to the other node. -/
def handOver : List Op := [.meet 1 [2] [20], .removeSlot 5, .assignSlot 5 [2]]

theorem slot_ranges_agree_handOver : ∃ st,
    run State.step (State.newCluster [1] [10] 0) handOver = some st ∧ st.slots 5 = some [2] ∧
      st.Coherent := by
  obtain ⟨st, hrun, howner⟩ : ∃ st, run State.step (State.newCluster [1] [10] 0) handOver = some st ∧
      st.slots 5 = some [2] := run_end (by decide +kernel)
  refine ⟨st, hrun, howner, slot_ranges_agree hrun ?_⟩
  have hremove : ((State.newCluster [1] [10] 0).meet 1 [2] [20]).Free [1] 5 := by decide +kernel
  have hassign : (((State.newCluster [1] [10] 0).meet 1 [2] [20]).removeSlot 5).Free [2] 5 := by
    decide +kernel
  have hmeet : ([2] : Bytes) ∉ (State.newCluster [1] [10] 0).nodes := by decide +kernel
  exact Meets.cons hmeet rfl (Meets.cons hremove rfl (Meets.cons hassign rfl trivial))

/-- `AssignSlot` to another node leaves the slot in the ranges of the node that had it. -/
theorem assigned_slot_held_twice : ∃ st,
    run State.step (State.newCluster [1] [10] 0) [.meet 1 [2] [20], .assignSlot 5 [2]] = some st ∧
      ¬ st.Coherent := by
  obtain ⟨st, hrun, howner, hheld⟩ : ∃ st,
      run State.step (State.newCluster [1] [10] 0) [.meet 1 [2] [20], .assignSlot 5 [2]] = some st ∧
        st.slots 5 = some [2] ∧ (st.nodes[([1] : Bytes)]?).map (·.slots) = some [⟨0, 16383⟩] :=
    run_end (by decide +kernel)
  refine ⟨st, hrun, fun hcoherent => ?_⟩
  obtain ⟨n, hn, hranges⟩ := Option.map_eq_some_iff.mp hheld
  have hself : ([1] : Bytes) ∈ st.nodes := mem_iff_isSome_getElem?.mpr (by rw [hn]; rfl)
  have hslot : HasSlot n.slots 5 := by
    rw [hranges]
    decide
  have hmine := (hcoherent 5 (by decide) [1] hself).mp ⟨n, hn, hslot⟩
  rw [howner] at hmine
  cases hmine

end BoltDB.Cluster.Topology
