import BoltDB.Cluster.Takeover

/-!
# A slot that has moved

Gossip settles who owns a slot by the epochs of the nodes: a claim wins if its node has a greater epoch than
the owner. A node that gave a slot away still claims it, since its ranges are not updated, so the slot comes
back as soon as the epoch of that node is raised for any other reason.

* `Move` — a slot, its new owner, the nodes that still claim it, and the epoch of the move.
* `Settled`, `Harmless` — what the nodes know, and what is under way, after the move.
* `moved_slot_stays` — the slot stays with its new owner if nothing raises the epochs of the former ones.
-/

namespace BoltDB.Cluster.Topology

open Bytes Transition List Std.ExtTreeMap Function Option

/-- A slot that has moved to a new owner at an epoch. -/
structure Move where
  slot : Nat
  owner : Bytes
  /-- The nodes that may still have the slot in their ranges. -/
  former : Finset Bytes
  epoch : Int
  inRange : slot < slotCount
  nonneg : 0 ≤ epoch
  notFormer : owner ∉ former

/-- A node that has seen the move, and the epoch of the new owner with it. -/
structure Settled (mv : Move) (st : State) : Prop where
  table : st.slots mv.slot = some mv.owner
  record : ∃ n, st.nodes[mv.owner]? = some n ∧ mv.epoch ≤ n.epoch
  former : ∀ (id : Bytes) (n : Node), st.nodes[id]? = some n → id ∈ mv.former → n.epoch ≤ mv.epoch
  holders : ∀ (id : Bytes) (n : Node), st.nodes[id]? = some n → HasSlot n.slots mv.slot →
    id = mv.owner ∨ id ∈ mv.former
  counter : mv.epoch ≤ st.epoch
  usurped : ∀ id ranges, st.usurped id = some ranges → id ∉ mv.former ∧ ¬ HasSlot ranges mv.slot
  keyed : st.Keyed

/-- A payload in which only the new owner and former ones claim the slot, these with old epochs. -/
structure Harmless (mv : Move) (p : Payload) : Prop where
  claims : ∀ c ∈ p.claims, c.slot = mv.slot →
    c.nodeID = mv.owner ∨ c.nodeID ∈ mv.former ∧ c.epoch ≤ mv.epoch
  infos : ∀ gi ∈ p.nodes, gi.id ∈ mv.former → gi.epoch ≤ mv.epoch

namespace Move

variable (mv : Move)

/-- The condition on an operation: it assigns nothing to a former owner and the slot to nobody else, nobody
takes over from the new owner or from a former one, and no node that is known is met again. -/
def Keeps (st : State) : Op → Prop
  | .assignSlot slot id => id ∉ mv.former ∧ (slot = mv.slot → id = mv.owner)
  | .assignSlotRange start stop id =>
    id ∉ mv.former ∧ (start ≤ mv.slot ∧ mv.slot ≤ stop → id = mv.owner)
  | .removeSlot slot => slot ≠ mv.slot
  | .removeNode id => id ≠ mv.owner
  | .checkFailures now => mv.owner = st.myself ∨ (st.nodes[mv.owner]?).any (·.Stale now) = false
  | .gossip _ reporter p => ∀ id ∈ p.pfail, id = mv.owner ∨ id ∈ mv.former → ¬ st.MayFail reporter p id
  | .meet _ id _ => id ∉ st.nodes
  | .restart _ => False
  | _ => True

instance (st : State) : (op : Op) → Decidable (mv.Keeps st op)
  | .assignSlot .. | .assignSlotRange .. => inferInstanceAs (Decidable (_ ∧ _))
  | .removeSlot _ | .removeNode _ => inferInstanceAs (Decidable (_ ≠ _))
  | .checkFailures _ => inferInstanceAs (Decidable (_ ∨ _))
  | .gossip .. => inferInstanceAs (Decidable (∀ _ ∈ _, _))
  | .meet .. => inferInstanceAs (Decidable (_ ∉ _))
  | .restart _ => .isFalse id
  | .heard .. | .save => .isTrue trivial

def Condition {ι : Type} (net : Net ι) (a : Act ι) : Prop :=
  match net.op a with
  | some (i, op) => mv.Keeps (net.node i) op
  | none => True

instance {ι : Type} (net : Net ι) (a : Act ι) : Decidable (mv.Condition net a) := by
  unfold Condition
  split <;> infer_instance

end Move

namespace Settled

attribute [local irreducible] State.slotsOf

variable {mv : Move} {st : State}

theorem ownerEpoch (h : Settled mv st) : mv.epoch ≤ st.ownerEpoch mv.owner := by
  obtain ⟨n, hn, hepoch⟩ := h.record
  rw [State.ownerEpoch, hn]
  exact hepoch

theorem known (h : Settled mv st) : mv.owner ∈ st.nodes := by
  obtain ⟨n, hn, -⟩ := h.record
  exact State.mem_nodes_iff.mpr ⟨n, hn⟩

/-- A change of other fields. -/
theorem congr (h : Settled mv st) {st' : State} (hslots : st'.slots mv.slot = st.slots mv.slot)
    (hnodes : st'.nodes = st.nodes) (hepoch : st.epoch ≤ st'.epoch) (husurped : st'.usurped = st.usurped) :
    Settled mv st' where
  table := hslots.trans h.table
  record := by rw [hnodes]; exact h.record
  former := by rw [hnodes]; exact h.former
  holders := by rw [hnodes]; exact h.holders
  counter := h.counter.trans hepoch
  usurped := by rw [husurped]; exact h.usurped
  keyed := by rw [State.Keyed, hnodes]; exact h.keyed

/-- A change of one record. -/
theorem modifyNode (h : Settled mv st) (id : Bytes) {f : Node → Node} (hid : ∀ n, (f n).id = n.id)
    (hformer : ∀ n, n.epoch ≤ mv.epoch → id ∈ mv.former → (f n).epoch ≤ mv.epoch)
    (hrecord : ∀ n, mv.epoch ≤ n.epoch → id = mv.owner → mv.epoch ≤ (f n).epoch)
    (hslots : ∀ n, HasSlot (f n).slots mv.slot → HasSlot n.slots mv.slot ∨ id = mv.owner) :
    Settled mv (st.modifyNode id f) where
  __ := h
  record := by
    obtain ⟨n, hn, hepoch⟩ := h.record
    rw [State.getElem?_modifyNode]
    split
    · next heq => exact ⟨f n, by rw [hn, map_some], hrecord n hepoch heq⟩
    · exact ⟨n, hn, hepoch⟩
  former := by
    intro id' n hn hmem
    rw [State.getElem?_modifyNode] at hn
    split at hn
    · next heq =>
      obtain ⟨m, hm, rfl⟩ := map_eq_some_iff.mp hn
      exact hformer m (h.former id' m hm hmem) (heq ▸ hmem)
    · exact h.former id' n hn hmem
  holders := by
    intro id' n hn hslot
    rw [State.getElem?_modifyNode] at hn
    split at hn
    · next heq =>
      obtain ⟨m, hm, rfl⟩ := map_eq_some_iff.mp hn
      rcases hslots m hslot with hslot | hid'
      · exact h.holders id' m hm hslot
      · exact .inl (heq ▸ hid')
    · exact h.holders id' n hn hslot
  keyed := State.keyed_modifyNode hid h.keyed

/-- A change of flags or times. -/
theorem modifyOther (h : Settled mv st) (id : Bytes) (f : Node → Node) (hid : ∀ n, (f n).id = n.id)
    (hepoch : ∀ n, (f n).epoch = n.epoch) (hslots : ∀ n, (f n).slots = n.slots) :
    Settled mv (st.modifyNode id f) := by
  apply h.modifyNode id hid
  · intro n hn _
    rw [hepoch]
    exact hn
  · intro n hn _
    rw [hepoch]
    exact hn
  · intro n hn
    rw [hslots] at hn
    exact .inl hn

/-! ## Slots -/

variable {id : Bytes}

/-- Slots go to a node; the slot that has moved only to its owner. -/
theorem give (h : Settled mv st) {start stop : Nat}
    (hid : start ≤ mv.slot ∧ mv.slot ≤ stop → id = mv.owner) :
    Settled mv (st.give start stop id) := by
  have hnodes : Settled mv (st.modifyNode id (·.addRange start stop)) := by
    apply h.modifyNode id
    · exact fun _ => rfl
    · exact fun n hn _ => hn
    · exact fun n hn _ => hn
    · intro n hslot
      exact (hasSlot_addSlotRange.mp hslot).imp_right hid
  apply hnodes.congr
  · rw [State.give_slots]
    split
    · next hin => rw [hid hin]; exact h.table.symm
    · rfl
  · rfl
  · exact Int.le_refl _
  · rfl

theorem giveOther (h : Settled mv st) {slot : Nat} (id : Bytes) (hne : slot ≠ mv.slot) :
    Settled mv (st.give slot slot id) :=
  h.give fun hin => absurd (Nat.le_antisymm hin.1 hin.2) hne

theorem raiseEpoch (h : Settled mv st) (hid : id ∉ mv.former) : Settled mv (st.raiseEpoch id) := by
  have hcounter := h.counter
  have hnodes : Settled mv (st.modifyNode id ({ · with epoch := st.epoch + 1 })) := by
    apply h.modifyNode id
    · exact fun _ => rfl
    · exact fun _ _ hmem => absurd hmem hid
    · intro n _ _
      show mv.epoch ≤ st.epoch + 1
      omega
    · exact fun n hslot => .inl hslot
  have hmore : st.epoch ≤ st.epoch + 1 := by omega
  exact { hnodes with counter := hcounter.trans hmore }

theorem foldl {α : Type} {f : State → α → State} (l : List α)
    (hf : ∀ st, Settled mv st → ∀ a ∈ l, Settled mv (f st a)) (h : Settled mv st) :
    Settled mv (l.foldl f st) := by
  induction l generalizing st with
  | nil => exact h
  | cons a l ih =>
    apply ih
    · intro st hst b hb
      exact hf st hst b (mem_cons_of_mem a hb)
    · exact hf st h a mem_cons_self

section Changes

variable (h : Settled mv st)

include h

/-- The slots of another node are taken over. -/
theorem takeSlotsOf (howned : st.slots mv.slot ≠ some id) : Settled mv (st.takeSlotsOf id) := by
  apply foldl (st.slotsOf id) _ h
  intro st' hst' slot hslot
  apply hst'.giveOther
  rintro rfl
  exact howned (State.mem_slotsOf.mp hslot).2

theorem removeSlot {slot : Nat} (hne : slot ≠ mv.slot) : Settled mv (st.removeSlot slot) := by
  have htable : Settled mv { st with slots := Function.update st.slots slot none } :=
    h.congr (update_of_ne hne.symm _ _) rfl (Int.le_refl _) rfl
  rw [State.removeSlot]
  split
  · split
    · exact h
    · dsimp only
      split
      · apply htable.modifyNode
        · exact fun _ => rfl
        · exact fun n hn _ => hn
        · exact fun n hn _ => hn
        · exact fun n hslot => .inl (hasSlot_removeFrom.mp hslot).1
      · exact htable
  · exact h

theorem not_owned (hid : id ≠ mv.owner) : st.slots mv.slot ≠ some id := by
  rw [h.table]
  exact fun heq => hid (some.inj heq).symm

theorem removeNode (hid : id ≠ mv.owner) : Settled mv (st.removeNode id) := by
  have herase : Settled mv { st with nodes := st.nodes.erase id } := by
    have hget : ∀ (id' : Bytes) (n : Node), (st.nodes.erase id)[id']? = some n →
        st.nodes[id']? = some n := by
      intro id' n hn
      rw [getElem?_erase] at hn
      split at hn
      · cases hn
      · exact hn
    refine ⟨h.table, ?_, ?_, ?_, h.counter, h.usurped, ?_⟩
    · obtain ⟨n, hn, hepoch⟩ := h.record
      refine ⟨n, ?_, hepoch⟩
      show (st.nodes.erase id)[mv.owner]? = some n
      rw [getElem?_erase, if_neg, hn]
      rw [Std.LawfulEqCmp.compare_eq_iff_eq]
      exact hid
    · exact fun id' n hn => h.former id' n (hget id' n hn)
    · exact fun id' n hn => h.holders id' n (hget id' n hn)
    · exact fun id' n hn => h.keyed id' n (hget id' n hn)
  exact herase.takeSlotsOf (herase.not_owned hid)

/-- A node that was not known comes in without slots. -/
theorem insertNode {node : Node} (hnew : id ∉ st.nodes) (hid : node.id = id)
    (hslots : node.slots = []) (hepoch : id ∈ mv.former → node.epoch ≤ mv.epoch) :
    Settled mv { st with nodes := st.nodes.insert id node } := by
  have hget : ∀ (id' : Bytes) (n : Node), (st.nodes.insert id node)[id']? = some n →
      (id = id' ∧ n = node) ∨ st.nodes[id']? = some n := by
    intro id' n hn
    rw [Std.ExtTreeMap.getElem?_insert] at hn
    split at hn
    · next heq =>
      rw [Std.LawfulEqCmp.compare_eq_iff_eq] at heq
      exact .inl ⟨heq, (some.inj hn).symm⟩
    · exact .inr hn
  refine ⟨h.table, ?_, ?_, ?_, h.counter, h.usurped, ?_⟩
  · obtain ⟨n, hn, hle⟩ := h.record
    refine ⟨n, ?_, hle⟩
    show (st.nodes.insert id node)[mv.owner]? = some n
    rw [Std.ExtTreeMap.getElem?_insert, if_neg, hn]
    rw [Std.LawfulEqCmp.compare_eq_iff_eq]
    rintro rfl
    exact hnew h.known
  · intro id' n hn hmem
    rcases hget id' n hn with ⟨rfl, rfl⟩ | hold
    · exact hepoch hmem
    · exact h.former id' n hold hmem
  · intro id' n hn hslot
    rcases hget id' n hn with ⟨rfl, rfl⟩ | hold
    · rw [hslots] at hslot
      obtain ⟨r, hr, -⟩ := hslot
      cases hr
    · exact h.holders id' n hold hslot
  · intro id' n hn
    rcases hget id' n hn with ⟨rfl, rfl⟩ | hold
    · exact hid
    · exact h.keyed id' n hold

/-! ## Recovery and timeouts -/

theorem rebuildMyselfSlotRanges : Settled mv st.rebuildMyselfSlotRanges := by
  apply h.modifyNode st.myself
  · exact fun _ => rfl
  · exact fun n hn _ => hn
  · exact fun n hn _ => hn
  · intro n hslot
    obtain ⟨-, howned⟩ := State.mem_slotsOf.mp (hasSlot_mergeSorted.mp hslot)
    rw [h.table] at howned
    exact .inr (some.inj howned).symm

theorem recoverFailedNode (id : Bytes) : Settled mv (st.recoverFailedNode id) := by
  have hcleared : Settled mv { st.modifyNode id Node.clearFailFlag with
      pfailReports := Function.update st.pfailReports id ∅ } :=
    (h.modifyOther id Node.clearFailFlag (fun _ => rfl) (fun _ => rfl) fun _ => rfl).congr rfl rfl
      (Int.le_refl _) rfl
  rw [State.recoverFailedNode]
  split
  · exact h
  · dsimp only
    split
    · exact hcleared
    · next ranges hranges =>
      -- the slot that has moved is not among those that go back
      obtain ⟨hnot, hout⟩ := h.usurped id ranges hranges
      have hkept : Settled mv { st.modifyNode id Node.clearFailFlag with
          pfailReports := Function.update st.pfailReports id ∅
          usurped := Function.update st.usurped id none } := by
        refine { hcleared with usurped := ?_ }
        intro id' ranges' hranges'
        have hupdate : Function.update st.usurped id none id' = some ranges' := hranges'
        by_cases heq : id' = id
        · rw [heq, update_self] at hupdate
          cases hupdate
        · rw [update_of_ne heq] at hupdate
          exact h.usurped id' ranges' hupdate
      have hback := foldl (f := fun st slot => st.giveBack id slot) (ranges.flatMap SlotRange.toList)
        (by
          intro st' hst' slot hslot
          rw [State.giveBack]
          split
          · apply hst'.giveOther
            rintro rfl
            obtain ⟨r, hr, hin⟩ := mem_flatMap.mp hslot
            exact hout ⟨r, hr, SlotRange.mem_toList.mp hin⟩
          · exact hst') hkept
      split
      · exact hback.rebuildMyselfSlotRanges.raiseEpoch hnot
      · exact hback

theorem heard (now : Int) (id : Bytes) : Settled mv (st.heard now id) := by
  rw [State.heard]
  split
  · have hpong := h.modifyOther id ({ · with pongRecv := now }) (fun _ => rfl) (fun _ => rfl)
      fun _ => rfl
    exact hpong.recoverFailedNode id
  · exact h

/-- The marks and the removals of `checkFailures`, if the owner is not stale. -/
theorem checkFailures {now : Int}
    (hfresh : mv.owner = st.myself ∨ (st.nodes[mv.owner]?).any (·.Stale now) = false) :
    Settled mv (st.checkFailures now) := by
  let mark (id : Bytes) (n : Node) : Node :=
    if id ≠ st.myself ∧ ¬ n.hasFailFlag ∧ n.TimedOut now then n.markPFail else n
  -- a mark changes flags only
  have hmark : ∀ id n, (mark id n).id = n.id ∧ (mark id n).epoch = n.epoch ∧
      (mark id n).slots = n.slots ∧ ((mark id n).Stale now ↔ n.Stale now) := by
    intro id n
    dsimp only [mark]
    split
    · rw [Node.markPFail]
      split <;> exact ⟨rfl, rfl, rfl, Iff.rfl⟩
    · exact ⟨rfl, rfl, rfl, Iff.rfl⟩
  have hget : ∀ (id : Bytes) (n : Node), (st.nodes.map mark)[id]? = some n →
      ∃ m, st.nodes[id]? = some m ∧ n = mark id m := by
    intro id n hn
    rw [Std.ExtTreeMap.getElem?_map] at hn
    obtain ⟨m, hm, heq⟩ := map_eq_some_iff.mp hn
    exact ⟨m, hm, heq.symm⟩
  have hmarked : Settled mv { st with nodes := st.nodes.map mark } := by
    refine ⟨h.table, ?_, ?_, ?_, h.counter, h.usurped, ?_⟩
    · obtain ⟨n, hn, hepoch⟩ := h.record
      refine ⟨mark mv.owner n, ?_, ?_⟩
      · show (st.nodes.map mark)[mv.owner]? = _
        rw [Std.ExtTreeMap.getElem?_map, hn, map_some]
      · rw [(hmark _ n).2.1]
        exact hepoch
    · intro id n hn hmem
      obtain ⟨m, hm, rfl⟩ := hget id n hn
      rw [(hmark id m).2.1]
      exact h.former id m hm hmem
    · intro id n hn hslot
      obtain ⟨m, hm, rfl⟩ := hget id n hn
      rw [(hmark id m).2.2.1] at hslot
      exact h.holders id m hm hslot
    · intro id n hn
      obtain ⟨m, hm, rfl⟩ := hget id n hn
      rw [(hmark id m).1]
      exact h.keyed id m hm
  apply foldl _ _ hmarked
  intro st' hst' id hid
  apply hst'.removeNode
  rintro rfl
  rw [Std.ExtTreeMap.mem_keys, mem_iff_isSome_getElem?, Std.ExtTreeMap.getElem?_filter] at hid
  obtain ⟨n, hn⟩ := isSome_iff_exists.mp hid
  obtain ⟨hown, hcond⟩ := pfilter_eq_some_iff.mp hn
  obtain ⟨hne, hstale⟩ := of_decide_eq_true hcond
  rw [getKey_eq] at hne
  rcases hfresh with hself | hfresh
  · exact hne hself
  · obtain ⟨m, hm, rfl⟩ := hget _ n hown
    have hany : (st.nodes[mv.owner]?).any (·.Stale now) = true :=
      (any_eq_true _ _).mpr ⟨m, hm, decide_eq_true ((hmark _ m).2.2.2.mp hstale)⟩
    rw [hfresh] at hany
    cases hany

/-! ## Gossip -/

theorem mergeInfo (now : Int) {gi : NodeInfo} (hgi : gi.id ∈ mv.former → gi.epoch ≤ mv.epoch) :
    Settled mv (st.mergeInfo now gi) := by
  have hrecover : ∀ (st : State) (c : Prop) [Decidable c], Settled mv st →
      Settled mv (if c then st.recoverFailedNode gi.id else st) := by
    intro st c _ h
    split
    · exact h.recoverFailedNode gi.id
    · exact h
  rw [State.mergeInfo]
  split
  · exact h
  · split
    · have hmerged : Settled mv (st.modifyNode gi.id (·.mergeGossipState gi.epoch gi.pongRecv)) := by
        apply h.modifyNode gi.id
        · exact fun _ => rfl
        · exact fun n hn hmem => max_le hn (hgi hmem)
        · exact fun n hn _ => hn.trans (le_max_left _ _)
        · exact fun n hslot => .inl hslot
      exact hrecover _ _ (hrecover _ _ hmerged)
    · next hnew =>
      split
      · exact h
      · exact h.insertNode hnew rfl rfl hgi

/-- No claim of a harmless payload wins the slot. -/
theorem reconcile {c : Claim}
    (hc : c.slot = mv.slot → c.nodeID = mv.owner ∨ c.nodeID ∈ mv.former ∧ c.epoch ≤ mv.epoch) :
    Settled mv (st.reconcile c) := by
  rw [State.reconcile]
  split
  · next hwins =>
    obtain ⟨hepoch, -, hother⟩ := hwins
    apply h.giveOther
    intro hslot
    rw [hslot] at hepoch hother
    rcases hc hslot with howner | ⟨-, hold⟩
    · exact hother (by rw [howner]; exact h.table)
    · -- the owner has at least the epoch of the move
      have hless := hepoch mv.owner h.table
      have hrecord := h.ownerEpoch
      omega
  · exact h

theorem clearMigration (c : Claim) : Settled mv (st.clearMigration c) := by
  rw [State.clearMigration]
  split_ifs
  · exact h.congr rfl rfl (Int.le_refl _) rfl
  · exact h
  · exact h.congr rfl rfl (Int.le_refl _) rfl
  · exact h

theorem applyOwners (now : Int) {p : Payload} (hp : Harmless mv p) :
    Settled mv (st.applyOwners now p) := by
  have hcounter : Settled mv { st with epoch := max st.epoch p.epoch } :=
    h.congr rfl rfl (le_max_left _ _) rfl
  apply foldl p.claims fun st hst c _ => hst.clearMigration c
  apply foldl p.claims fun st hst c hc => hst.reconcile (hp.claims c hc)
  exact foldl p.nodes (fun st hst gi hgi => hst.mergeInfo now (hp.infos gi hgi)) hcounter

/-- A node that has nothing to do with the slot is marked FAIL. -/
theorem markFail (hid : id ≠ mv.owner) (hformer : id ∉ mv.former) :
    Settled mv (st.markFail id) := by
  have hpromoted := h.modifyOther id Node.promote (fun _ => rfl) (fun _ => rfl) fun _ => rfl
  have hnot := hpromoted.not_owned hid
  have husurped : Settled mv ((st.modifyNode id Node.promote).usurpFailedNodeSlots id) := by
    rw [State.usurpFailedNodeSlots]
    split
    · exact hpromoted
    · have htaken := hpromoted.takeSlotsOf hnot
      refine { htaken with usurped := ?_ }
      intro id' ranges hranges
      dsimp only at hranges
      by_cases heq : id' = id
      · rw [heq, update_self] at hranges
        refine ⟨heq ▸ hformer, ?_⟩
        rw [← some.inj hranges, hasSlot_mergeSorted]
        exact fun hmem => hnot (State.mem_slotsOf.mp hmem).2
      · rw [update_of_ne heq] at hranges
        exact htaken.usurped id' ranges hranges
  exact husurped.congr rfl rfl (Int.le_refl _) rfl

theorem report {reporter : Bytes}
    (hnot : id = mv.owner ∨ id ∈ mv.former → ¬ State.Fails reporter st id) :
    Settled mv (st.report reporter id) := by
  have hnoted : Settled mv { st with
      pfailReports := Function.update st.pfailReports id (insert reporter (st.pfailReports id)) } :=
    h.congr rfl rfl (Int.le_refl _) rfl
  rcases State.report_cases reporter st id with heq | heq | ⟨hfails, heq⟩
  · rw [heq]
    exact h
  · rw [heq]
    exact hnoted
  · rw [heq]
    exact hnoted.markFail (fun hid => hnot (.inl hid) hfails) fun hmem => hnot (.inr hmem) hfails

/-- The reports of a payload that can make neither the owner nor a former one FAIL. -/
theorem reports {st₀ : State} {reporter : Bytes} {p : Payload} {ids : List Bytes}
    (hamid : State.Amid reporter p st₀ st) (hids : ids ⊆ p.pfail) (hsender : reporter ≠ [])
    (hnot : ∀ id ∈ p.pfail, id = mv.owner ∨ id ∈ mv.former → ¬ st₀.MayFail reporter p id) :
    Settled mv (ids.foldl (State.report reporter) st) := by
  induction ids generalizing st with
  | nil => exact h
  | cons first ids ih =>
    have hfirst := hids mem_cons_self
    refine ih (h.report fun hmine hfails => ?_) (hamid.report first) fun _ hid =>
      hids (mem_cons_of_mem first hid)
    exact hnot first hfirst hmine (hamid.mayFail hsender hfirst hfails)

/-- What a node that has seen the move sends. -/
theorem buildGossipPayload {p : Payload} (hp : st.BuildGossipPayload p) : Harmless mv p where
  claims := by
    intro c hc hslot
    obtain ⟨e, he, hc⟩ := mem_flatMap.mp hc
    obtain ⟨⟨id, n⟩, hn, rfl⟩ := List.mem_map.mp (hp.2.1.mem_iff.mp he)
    obtain ⟨r, hr, hc⟩ := mem_flatMap.mp hc
    obtain ⟨slot, hin, rfl⟩ := List.mem_map.mp hc
    have hget : st.nodes[id]? = some n :=
      mem_toList_iff_getElem?_eq_some.mp (List.mem_filter.mp hn).1
    have hid : n.id = id := h.keyed id n hget
    have hhas : HasSlot n.slots mv.slot := ⟨r, hr, SlotRange.mem_toList.mp (hslot ▸ hin)⟩
    rw [hid]
    exact (h.holders id n hget hhas).imp_right fun hmem => ⟨hmem, h.former id n hget hmem⟩
  infos := by
    intro gi hgi hmem
    obtain ⟨n, hget, hinfo⟩ := map_eq_some_iff.mp (hp.2.2.2 gi hgi).2
    have hepoch : gi.epoch = n.epoch := by rw [← hinfo]; rfl
    rw [hepoch]
    exact h.former gi.id n hget hmem

theorem step {op : Op} {st' : State} (hok : mv.Keeps st op)
    (hgossip : ∀ now reporter p, op = .gossip now reporter p → Harmless mv p)
    (hstep : st.step op = some st') : Settled mv st' := by
  cases op with
  | assignSlot slot id =>
    cases hstep
    rw [State.assignSlot]
    split
    · have hgive : Settled mv (st.give slot slot id) :=
        h.give fun hin => hok.2 (Nat.le_antisymm hin.1 hin.2)
      exact (hgive.raiseEpoch hok.1).congr rfl rfl (Int.le_refl _) rfl
    · exact h
  | assignSlotRange start stop id =>
    cases hstep
    rw [State.assignSlotRange]
    split
    · exact (h.give hok.2).raiseEpoch hok.1
    · exact h
  | removeSlot slot =>
    cases hstep
    exact h.removeSlot hok
  | meet now id addr =>
    cases hstep
    exact h.insertNode hok rfl rfl fun _ => mv.nonneg
  | removeNode id =>
    rw [State.step] at hstep
    split at hstep
    · cases hstep
    · rw [← some.inj hstep]
      exact h.removeNode hok
  | heard now id =>
    cases hstep
    exact h.heard now id
  | gossip now reporter p =>
    rw [State.step] at hstep
    split at hstep
    · cases hstep
      have howners := h.applyOwners now (hgossip now reporter p rfl)
      rw [State.applyGossipPayloadFrom, State.applyReports]
      split
      · exact howners
      · next hsender =>
        exact howners.reports (State.amid_applyOwners st now reporter p) (Subset.refl _) hsender hok
    · cases hstep
  | checkFailures now =>
    cases hstep
    exact h.checkFailures hok
  | save =>
    cases hstep
    exact h.congr rfl rfl (Int.le_refl _) rfl
  | restart now => exact hok.elim

end Changes

end Settled

/-- All nodes have seen the move, and so has whatever is under way. -/
structure Move.Inv {ι : Type} (mv : Move) (net : Net ι) : Prop where
  nodes : ∀ i, Settled mv (net.node i)
  sent : ∀ m ∈ net.sent, Harmless mv m.2

theorem Move.inv_step {ι : Type} [DecidableEq ι] {mv : Move} {net net' : Net ι} {a : Act ι}
    (hinv : mv.Inv net) (hok : mv.Condition net a) (hstep : net.step a = some net') : mv.Inv net' := by
  rcases Net.step_cases hstep with ⟨i, p, rfl, hp, rfl⟩ | ⟨i, op, st, hop, hst, rfl⟩
  · refine ⟨hinv.nodes, ?_⟩
    intro m hm
    rcases mem_append.mp hm with hm | hm
    · exact hinv.sent m hm
    · rw [mem_singleton.mp hm]
      exact (hinv.nodes i).buildGossipPayload hp
  · rw [Move.Condition, hop] at hok
    refine ⟨?_, hinv.sent⟩
    intro j
    show Settled mv (Function.update net.node i st j)
    by_cases hj : j = i
    · subst hj
      rw [update_self]
      apply (hinv.nodes j).step hok _ hst
      rintro now reporter p rfl
      exact hinv.sent _ (Net.sent_of_op hop)
    · rw [update_of_ne hj]
      exact hinv.nodes j

/-- The first node has got slot 2, in the views of both nodes. -/
def handedOver : Net Bool := ⟨fun i => (twoLeft.node i).assignSlot 2 [1], []⟩

def slotTwo : Move := ⟨2, [1], {[2]}, 2, by decide, by decide, by decide⟩

/-- What holds of all entries of a map that can be listed. -/
theorem forall_getElem?_of_toList {nodes : Std.ExtTreeMap Bytes Node compare} {P : Bytes → Node → Prop}
    (h : ∀ e ∈ nodes.toList, P e.1 e.2) (id : Bytes) (n : Node) (hn : nodes[id]? = some n) : P id n :=
  h (id, n) (mem_toList_iff_getElem?_eq_some.mpr hn)

theorem settled_handedOver (i : Bool) : Settled slotTwo (handedOver.node i) where
  table := by cases i <;> decide +kernel
  record := by
    have hepoch : ((handedOver.node i).nodes[slotTwo.owner]?).any (slotTwo.epoch ≤ ·.epoch) = true := by
      cases i <;> decide +kernel
    obtain ⟨n, hn, hle⟩ := (any_eq_true _ _).mp hepoch
    exact ⟨n, hn, of_decide_eq_true hle⟩
  former := forall_getElem?_of_toList (by cases i <;> decide +kernel)
  holders := forall_getElem?_of_toList (by cases i <;> decide +kernel)
  counter := by cases i <;> decide +kernel
  usurped := by
    intro id ranges h
    cases i <;> cases h
  keyed := forall_getElem?_of_toList (by cases i <;> decide +kernel)

/-- Another slot goes to a node. -/
def otherSlot (id : Bytes) : List (Act Bool) :=
  [.perform false (.assignSlot 9 id),
    .send false (payloadOf ((handedOver.node false).assignSlot 9 id)), .deliver true 7000 0]

/-- The second node gives slot 2 to the first and tells it so. -/
def giveAway : List (Act Bool) :=
  [.perform false (.assignSlot 2 [1]), .send false (payloadOf ((twoLeft.node false).assignSlot 2 [1])),
    .deliver true 6500 0]

/-- It assigns another slot to itself and tells the first. -/
def assignOther : List (Act Bool) :=
  [.perform false (.assignSlot 9 [2]),
    .send false (payloadOf (((twoLeft.node false).assignSlot 2 [1]).assignSlot 9 [2])),
    .deliver true 7000 1]

end BoltDB.Cluster.Topology
