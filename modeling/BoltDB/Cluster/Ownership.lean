import BoltDB.Cluster.Topology

/-!
# The two records of slot ownership

The table says who owns a slot, and so do the ranges of the nodes. `Coherent` says that they agree. Every
change of an owner goes through `State.give`, which updates the table and the ranges of the new owner but
not those of the old one; so the records stay together as long as nobody gives away a slot that another
known node holds. Forgetting a node, returning slots and loading a configuration need no condition.

* `Inv` — the two records agree, and the table names known nodes only.
* `inv_give` — giving away slots that nobody else holds keeps it.
* `inv_applyOwners`, `inv_foldl_report`, … — what the operations keep.
-/

namespace BoltDB.Cluster.Topology

open Bytes Transition List Std.ExtTreeMap Function

namespace State

-- a goal must not be decided by going through all slots
attribute [local irreducible] slotsOf

/-- The node's own ranges contain the slot. -/
def Holds (st : State) (id : Bytes) (slot : Nat) : Prop :=
  ∃ n, st.nodes[id]? = some n ∧ HasSlot n.slots slot

/-- **Coherence.** A known node's ranges contain a slot if and only if the table maps the slot to it. -/
def Coherent (st : State) : Prop :=
  ∀ slot < slotCount, ∀ id ∈ st.nodes, st.Holds id slot ↔ st.slots slot = some id

/-- With what makes it inductive: the node knows itself, and the table is over the slots and over known
nodes. -/
structure Inv (st : State) : Prop where
  coherent : st.Coherent
  self : st.myself ∈ st.nodes
  owner : ∀ slot id, st.slots slot = some id → slot < slotCount ∧ id ∈ st.nodes

/-! ## Changes that leave ownership alone -/

/-- The same known nodes, the same table, the same ranges. -/
structure SameOwners (st st' : State) : Prop where
  myself : st'.myself = st.myself
  slots : st'.slots = st.slots
  known : ∀ id, id ∈ st'.nodes ↔ id ∈ st.nodes
  holds : ∀ id slot, st'.Holds id slot ↔ st.Holds id slot

theorem SameOwners.refl (st : State) : SameOwners st st :=
  ⟨rfl, rfl, fun _ => Iff.rfl, fun _ _ => Iff.rfl⟩

variable {id : Bytes} {now : Int} {l : List Nat} {slot : Nat} {st : State}
  {nodes : Std.ExtTreeMap Bytes Node compare}

theorem SameOwners.trans {st' st'' : State} (h : SameOwners st st') (h' : SameOwners st' st'') :
    SameOwners st st'' where
  myself := h'.myself.trans h.myself
  slots := h'.slots.trans h.slots
  known id := (h'.known id).trans (h.known id)
  holds id slot := (h'.holds id slot).trans (h.holds id slot)

theorem Inv.congr {st' : State} (hinv : Inv st) (h : SameOwners st st') : Inv st' where
  coherent := by
    intro slot hslot id hid
    rw [h.holds, h.slots]
    exact hinv.coherent slot hslot id ((h.known id).mp hid)
  self := by
    rw [h.myself, h.known]
    exact hinv.self
  owner := by
    intro slot id hslot
    rw [h.slots] at hslot
    obtain ⟨hlt, hid⟩ := hinv.owner slot id hslot
    exact ⟨hlt, (h.known id).mpr hid⟩

/-- A state with the same nodes and the same table. -/
theorem sameOwners_of_eq {st' : State} (hme : st'.myself = st.myself)
    (hslots : st'.slots = st.slots) (hnodes : st'.nodes = st.nodes) : SameOwners st st' where
  myself := hme
  slots := hslots
  known id := by rw [hnodes]
  holds id slot := by rw [Holds, Holds, hnodes]

/-- A change of a node's record that is not about its ranges. -/
theorem sameOwners_modifyNode (st : State) (id : Bytes) {f : Node → Node}
    (hf : ∀ n, (f n).slots = n.slots) : SameOwners st (st.modifyNode id f) where
  myself := rfl
  slots := rfl
  known _ := mem_modifyNode
  holds id' slot := by
    rw [Holds, Holds, getElem?_modifyNode]
    by_cases h : id = id'
    · rw [if_pos h]
      constructor
      · rintro ⟨n, hn, hslot⟩
        obtain ⟨m, hm, rfl⟩ := Option.map_eq_some_iff.mp hn
        rw [hf] at hslot
        exact ⟨m, hm, hslot⟩
      · rintro ⟨n, hn, hslot⟩
        refine ⟨f n, by rw [hn, Option.map_some], ?_⟩
        rw [hf]
        exact hslot
    · rw [if_neg h]

theorem sameOwners_raiseEpoch (st : State) (id : Bytes) : SameOwners st (st.raiseEpoch id) :=
  (sameOwners_modifyNode st id (f := fun n => { n with epoch := st.epoch + 1 }) fun _ => rfl).trans
    (sameOwners_of_eq rfl rfl rfl)

theorem sameOwners_clearMigration (st : State) (c : Claim) : SameOwners st (st.clearMigration c) := by
  rw [clearMigration]
  split_ifs <;> first | exact .refl st | exact sameOwners_of_eq rfl rfl rfl

/-! ## Giving slots away -/

@[simp] theorem give_myself (st : State) (start stop : Nat) (id : Bytes) :
    (st.give start stop id).myself = st.myself := rfl

variable {id' : Bytes}

@[simp] theorem mem_give {start stop : Nat} :
    id' ∈ (st.give start stop id).nodes ↔ id' ∈ st.nodes := mem_modifyNode

theorem give_slots (st : State) (start stop : Nat) (id : Bytes) (slot : Nat) :
    (st.give start stop id).slots slot =
      if start ≤ slot ∧ slot ≤ stop then some id else st.slots slot := rfl

theorem holds_give {start stop : Nat} (hid : id ∈ st.nodes) :
    (st.give start stop id).Holds id' slot ↔
      st.Holds id' slot ∨ id' = id ∧ start ≤ slot ∧ slot ≤ stop := by
  have hnodes : (st.give start stop id).nodes = (st.modifyNode id (·.addRange start stop)).nodes := rfl
  rw [Holds, Holds, hnodes, getElem?_modifyNode]
  by_cases h : id = id'
  · subst h
    obtain ⟨n, hn⟩ := mem_iff_isSome_getElem?.mp hid |> Option.isSome_iff_exists.mp
    rw [if_pos rfl, hn]
    constructor
    · rintro ⟨m, hm, hslot⟩
      obtain rfl := Option.some.inj hm
      rcases hasSlot_addSlotRange.mp hslot with hslot | hslot
      · exact .inl ⟨n, rfl, hslot⟩
      · exact .inr ⟨rfl, hslot⟩
    · intro hslot
      refine ⟨n.addRange start stop, rfl, hasSlot_addSlotRange.mpr ?_⟩
      rcases hslot with ⟨m, hm, hslot⟩ | ⟨-, hslot⟩
      · obtain rfl := Option.some.inj hm
        exact .inl hslot
      · exact .inr hslot
  · have hne : id' ≠ id := fun heq => h heq.symm
    simp [h, hne]

/-- The slot has no owner, or the node that is to get it. -/
def Free (st : State) (id : Bytes) (slot : Nat) : Prop :=
  st.slots slot = none ∨ st.slots slot = some id

instance (st : State) (id : Bytes) (slot : Nat) : Decidable (st.Free id slot) :=
  inferInstanceAs (Decidable (_ ∨ _))

/-- Giving free slots to a known node keeps the records together. -/
theorem inv_give (hinv : Inv st) {start stop : Nat} (hid : id ∈ st.nodes)
    (hstop : start ≤ stop → stop < slotCount)
    (hfree : ∀ slot, start ≤ slot → slot ≤ stop → st.Free id slot) : Inv (st.give start stop id) where
  coherent := by
    intro slot hslot id' hid'
    have hold := hinv.coherent slot hslot id' (mem_give.mp hid')
    rw [holds_give hid, give_slots, hold]
    by_cases hin : start ≤ slot ∧ slot ≤ stop
    · -- in the range only the new owner has the slot, in either record
      rw [if_pos hin]
      constructor
      · rintro (howned | ⟨rfl, -⟩)
        · rcases hfree slot hin.1 hin.2 with hnone | hsame
          · rw [hnone] at howned
            cases howned
          · exact hsame.symm.trans howned
        · rfl
      · intro heq
        exact .inr ⟨(Option.some.inj heq).symm, hin⟩
    · simp [hin]
  self := mem_give.mpr hinv.self
  owner := by
    intro slot id' hslot
    rw [give_slots] at hslot
    by_cases hin : start ≤ slot ∧ slot ≤ stop
    · rw [if_pos hin] at hslot
      obtain rfl := Option.some.inj hslot
      exact ⟨by omega, mem_give.mpr hid⟩
    · rw [if_neg hin] at hslot
      obtain ⟨hlt, hid'⟩ := hinv.owner slot id' hslot
      exact ⟨hlt, mem_give.mpr hid'⟩

/-- Single slots given to one node after the other: the table. -/
theorem foldl_give_slots (st : State) (id : Bytes) (l : List Nat) (slot : Nat) :
    (l.foldl (fun st slot => st.give slot slot id) st).slots slot =
      if slot ∈ l then some id else st.slots slot := by
  induction l generalizing st with
  | nil => simp
  | cons first l ih =>
    have hone : first ≤ slot ∧ slot ≤ first ↔ slot = first := by omega
    rw [foldl_cons, ih, give_slots]
    by_cases hmem : slot ∈ l
    · simp [hmem]
    · simp [hmem, hone]

/-- And the ranges. -/
theorem holds_foldl_give (hid : id ∈ st.nodes) :
    (l.foldl (fun st slot => st.give slot slot id) st).Holds id' slot ↔
      st.Holds id' slot ∨ id' = id ∧ slot ∈ l := by
  induction l generalizing st with
  | nil => simp
  | cons first l ih =>
    have hone : first ≤ slot ∧ slot ≤ first ↔ slot = first := by omega
    rw [foldl_cons, ih (mem_give.mpr hid), holds_give hid, hone, mem_cons, or_assoc, ← and_or_left]

theorem mem_foldl_give :
    id' ∈ (l.foldl (fun st slot => st.give slot slot id) st).nodes ↔ id' ∈ st.nodes := by
  induction l generalizing st with
  | nil => rfl
  | cons first l ih => rw [foldl_cons, ih, mem_give]

theorem foldl_give_myself (st : State) (id : Bytes) (l : List Nat) :
    (l.foldl (fun st slot => st.give slot slot id) st).myself = st.myself := by
  induction l generalizing st with
  | nil => rfl
  | cons first l ih => rw [foldl_cons, ih, give_myself]

/-- The loop gives to the node itself, whose ID does not change on the way. -/
theorem takeSlotsOf_eq (st : State) (id : Bytes) :
    st.takeSlotsOf id = (st.slotsOf id).foldl (fun st' slot => st'.give slot slot st.myself) st := by
  have hfold : ∀ (l : List Nat) (st' : State), st'.myself = st.myself →
      l.foldl (fun st slot => st.give slot slot st.myself) st' =
        l.foldl (fun st' slot => st'.give slot slot st.myself) st' := by
    intro l
    induction l with
    | nil =>
      intro st' _
      rfl
    | cons first l ih =>
      intro st' hme
      rw [foldl_cons, foldl_cons, ih, hme]
      exact hme
  exact hfold _ st rfl

/-! ## Forgetting a node -/

/-- The slots of a node that is forgotten go to the node itself, and no known node has them in its
ranges any more. -/
theorem inv_removeNode (hinv : Inv st) (hne : id ≠ st.myself) : Inv (st.removeNode id) := by
  have hself : st.myself ∈ st.nodes.erase id := by
    rw [mem_erase]
    exact ⟨by simpa using hne, hinv.self⟩
  have hknown : ∀ {id' : Bytes}, id' ∈ (st.removeNode id).nodes ↔ id' ≠ id ∧ id' ∈ st.nodes := by
    intro id'
    rw [removeNode, takeSlotsOf_eq, mem_foldl_give, mem_erase]
    constructor
    · rintro ⟨hne', hmem⟩
      exact ⟨fun heq => by simp [heq] at hne', hmem⟩
    · rintro ⟨hne', hmem⟩
      exact ⟨by simpa using fun heq : id = id' => hne' heq.symm, hmem⟩
  have hmine : ∀ slot, slot ∈ ({ st with nodes := st.nodes.erase id } : State).slotsOf id ↔
      slot < slotCount ∧ st.slots slot = some id := fun slot => mem_slotsOf
  have hslots : ∀ slot, (st.removeNode id).slots slot =
      if slot < slotCount ∧ st.slots slot = some id then some st.myself else st.slots slot := by
    intro slot
    rw [removeNode, takeSlotsOf_eq, foldl_give_slots]
    simp only [hmine]
  have hholds : ∀ id' slot, id' ≠ id → ((st.removeNode id).Holds id' slot ↔
      st.Holds id' slot ∨ id' = st.myself ∧ slot < slotCount ∧ st.slots slot = some id) := by
    intro id' slot hne'
    rw [removeNode, takeSlotsOf_eq, holds_foldl_give hself, hmine]
    have hsame : ({ st with nodes := st.nodes.erase id } : State).Holds id' slot ↔ st.Holds id' slot := by
      have hget : (st.nodes.erase id)[id']? = st.nodes[id']? := by
        rw [getElem?_erase, if_neg]
        simpa using fun heq : id = id' => hne' heq.symm
      rw [Holds, Holds, hget]
    rw [hsame]
  refine ⟨?_, ?_, ?_⟩
  · intro slot hslot id' hid'
    obtain ⟨hne', hmem⟩ := hknown.mp hid'
    rw [hholds id' slot hne', hslots, hinv.coherent slot hslot id' hmem]
    by_cases howned : st.slots slot = some id
    · rw [if_pos ⟨hslot, howned⟩, howned]
      constructor
      · rintro (heq | ⟨rfl, -⟩)
        · exact absurd (Option.some.inj heq).symm hne'
        · rfl
      · intro heq
        exact .inr ⟨(Option.some.inj heq).symm, hslot, rfl⟩
    · simp [howned]
  · have hme : (st.removeNode id).myself = st.myself := by
      rw [removeNode, takeSlotsOf_eq, foldl_give_myself]
    rw [hme, hknown]
    exact ⟨fun heq => hne heq.symm, hinv.self⟩
  · intro slot id' hslot
    rw [hslots] at hslot
    by_cases howned : slot < slotCount ∧ st.slots slot = some id
    · rw [if_pos howned] at hslot
      obtain rfl := Option.some.inj hslot
      exact ⟨howned.1, hknown.mpr ⟨fun heq => hne heq.symm, hinv.self⟩⟩
    · rw [if_neg howned] at hslot
      obtain ⟨hlt, hmem⟩ := hinv.owner slot id' hslot
      refine ⟨hlt, hknown.mpr ⟨?_, hmem⟩⟩
      rintro rfl
      exact howned ⟨hlt, hslot⟩

theorem removeNode_myself (st : State) (id : Bytes) : (st.removeNode id).myself = st.myself := by
  rw [removeNode, takeSlotsOf_eq, foldl_give_myself]

/-! ## Returning slots -/

/-- The slots of a list that the node itself holds go back: the table. -/
theorem foldl_giveBack_slots (st : State) (l : List Nat) (slot : Nat) :
    (l.foldl (·.giveBack id ·) st).slots slot =
      if slot ∈ l ∧ st.slots slot = some st.myself then some id else st.slots slot := by
  induction l generalizing st with
  | nil => simp
  | cons first l ih =>
    rw [foldl_cons, ih]
    by_cases hmine : st.slots first = some st.myself
    · have hone : first ≤ slot ∧ slot ≤ first ↔ slot = first := by omega
      rw [giveBack, if_pos hmine, give_slots]
      by_cases hslot : slot = first
      · subst hslot
        simp [hmine]
      · simp [hone, hslot]
    · rw [giveBack, if_neg hmine]
      by_cases hslot : slot = first
      · subst hslot
        simp [hmine]
      · simp [hslot]

theorem mem_foldl_giveBack :
    id' ∈ (l.foldl (·.giveBack id ·) st).nodes ↔ id' ∈ st.nodes := by
  induction l generalizing st with
  | nil => rfl
  | cons first l ih =>
    rw [foldl_cons, ih, giveBack]
    split
    · exact mem_give
    · rfl

theorem foldl_giveBack_myself (st : State) (id : Bytes) (l : List Nat) :
    (l.foldl (·.giveBack id ·) st).myself = st.myself := by
  induction l generalizing st with
  | nil => rfl
  | cons first l ih =>
    rw [foldl_cons, ih, giveBack]
    split <;> rfl

/-- And the ranges. -/
theorem holds_foldl_giveBack (hid : id ∈ st.nodes) :
    (l.foldl (·.giveBack id ·) st).Holds id' slot ↔
      st.Holds id' slot ∨ id' = id ∧ slot ∈ l ∧ st.slots slot = some st.myself := by
  induction l generalizing st with
  | nil => simp
  | cons first l ih =>
    rw [foldl_cons]
    by_cases hmine : st.slots first = some st.myself
    · have hone : first ≤ slot ∧ slot ≤ first ↔ slot = first := by omega
      have hback : st.giveBack id first = st.give first first id := by rw [giveBack, if_pos hmine]
      rw [hback, ih (mem_give.mpr hid), holds_give hid, give_slots]
      simp only [hone]
      by_cases hslot : slot = first
      · subst hslot
        rw [mem_cons]
        constructor
        · rintro ((hold | ⟨rfl, -⟩) | ⟨rfl, -, -⟩)
          · exact .inl hold
          · exact .inr ⟨rfl, .inl rfl, hmine⟩
          · exact .inr ⟨rfl, .inl rfl, hmine⟩
        · rintro (hold | ⟨rfl, -, -⟩)
          · exact .inl (.inl hold)
          · exact .inl (.inr ⟨rfl, rfl⟩)
      · simp [hslot]
    · have hback : st.giveBack id first = st := by rw [giveBack, if_neg hmine]
      rw [hback, ih hid]
      by_cases hslot : slot = first
      · subst hslot
        simp [hmine]
      · simp [hslot]

/-- After a rebuild the ranges of the node itself are what the table says. -/
theorem holds_rebuild (hself : st.myself ∈ st.nodes) : st.rebuildMyselfSlotRanges.Holds id slot ↔
      if id = st.myself then slot < slotCount ∧ st.slots slot = some id else st.Holds id slot := by
  rw [Holds, rebuildMyselfSlotRanges, getElem?_modifyNode]
  by_cases h : st.myself = id
  · subst h
    obtain ⟨n, hn⟩ := Option.isSome_iff_exists.mp (mem_iff_isSome_getElem?.mp hself)
    rw [if_pos rfl, if_pos rfl, hn, ← mem_slotsOf]
    constructor
    · rintro ⟨m, hm, hslot⟩
      have hranges : m.slots = mergeSorted (st.slotsOf st.myself) := by
        rw [← Option.some.inj hm]
      rw [hranges] at hslot
      exact hasSlot_mergeSorted.mp hslot
    · intro hslot
      exact ⟨{ n with slots := mergeSorted (st.slotsOf st.myself) }, rfl,
        hasSlot_mergeSorted.mpr hslot⟩
  · rw [if_neg h, if_neg fun heq => h heq.symm, Holds]

/-- Slots that go back to a known node, with the ranges of the node itself built anew. -/
theorem inv_giveBack_rebuild (hinv : Inv st) (hid : id ∈ st.nodes) (l : List Nat) :
    Inv (l.foldl (·.giveBack id ·) st).rebuildMyselfSlotRanges := by
  have hself : (l.foldl (·.giveBack id ·) st).myself ∈
      (l.foldl (·.giveBack id ·) st).nodes := by
    rw [foldl_giveBack_myself, mem_foldl_giveBack]
    exact hinv.self
  refine ⟨?_, ?_, ?_⟩
  · intro slot hslot id' hid'
    have hmem : id' ∈ st.nodes := mem_foldl_giveBack.mp (mem_modifyNode.mp hid')
    have htable : (l.foldl (·.giveBack id ·) st).rebuildMyselfSlotRanges.slots slot =
        (l.foldl (·.giveBack id ·) st).slots slot := rfl
    rw [holds_rebuild hself, htable, foldl_giveBack_myself]
    by_cases hme : id' = st.myself
    · rw [if_pos hme]
      simp [hslot]
    · rw [if_neg hme, holds_foldl_giveBack hid, foldl_giveBack_slots, hinv.coherent slot hslot id' hmem]
      by_cases hback : slot ∈ l ∧ st.slots slot = some st.myself
      · rw [if_pos hback]
        constructor
        · rintro (howned | ⟨rfl, -⟩)
          · exact absurd (Option.some.inj (howned.symm.trans hback.2)) hme
          · rfl
        · intro heq
          exact .inr ⟨(Option.some.inj heq).symm, hback⟩
      · rw [if_neg hback]
        constructor
        · rintro (howned | ⟨-, hboth⟩)
          · exact howned
          · exact absurd hboth hback
        · exact .inl
  · exact mem_modifyNode.mpr hself
  · intro slot id' hslot
    have htable : (l.foldl (·.giveBack id ·) st).slots slot = some id' := hslot
    rw [foldl_giveBack_slots] at htable
    by_cases hback : slot ∈ l ∧ st.slots slot = some st.myself
    · rw [if_pos hback] at htable
      obtain rfl := Option.some.inj htable
      exact ⟨(hinv.owner slot _ hback.2).1, mem_modifyNode.mpr (mem_foldl_giveBack.mpr hid)⟩
    · rw [if_neg hback] at htable
      obtain ⟨hlt, hmem⟩ := hinv.owner slot id' htable
      exact ⟨hlt, mem_modifyNode.mpr (mem_foldl_giveBack.mpr hmem)⟩

/-- Nothing goes back when the node itself holds none of the slots. -/
theorem foldl_giveBack_of_none (h : ¬ ∃ slot ∈ l, st.slots slot = some st.myself) :
    l.foldl (·.giveBack id ·) st = st := by
  induction l with
  | nil => rfl
  | cons first l ih =>
    have hfirst : st.giveBack id first = st := by
      rw [giveBack, if_neg fun hmine => h ⟨first, mem_cons_self, hmine⟩]
    rw [foldl_cons, hfirst]
    apply ih
    rintro ⟨slot, hslot, hmine⟩
    exact h ⟨slot, mem_cons_of_mem first hslot, hmine⟩

/-- **Recovery** keeps the records together. -/
theorem inv_recoverFailedNode (hinv : Inv st) (id : Bytes) : Inv (st.recoverFailedNode id) := by
  rw [recoverFailedNode]
  cases hnode : st.nodes[id]? with
  | none => exact hinv
  | some node =>
    have hid : id ∈ st.nodes := by
      rw [mem_iff_isSome_getElem?, hnode]
      rfl
    have hcleared : SameOwners st { st.modifyNode id Node.clearFailFlag with
        pfailReports := Function.update st.pfailReports id ∅ } :=
      (sameOwners_modifyNode st id (f := Node.clearFailFlag) fun _ => rfl).trans
        (sameOwners_of_eq rfl rfl rfl)
    cases husurped : st.usurped id with
    | none => exact hinv.congr hcleared
    | some ranges =>
      have hkept : SameOwners st { st.modifyNode id Node.clearFailFlag with
          pfailReports := Function.update st.pfailReports id ∅
          usurped := Function.update st.usurped id none } :=
        hcleared.trans (sameOwners_of_eq rfl rfl rfl)
      dsimp only
      split
      · refine Inv.congr (inv_giveBack_rebuild (hinv.congr hkept) ?_ _) (sameOwners_raiseEpoch _ id)
        exact (hkept.known id).mpr hid
      · next hnot =>
        rw [foldl_giveBack_of_none]
        · exact hinv.congr hkept
        · intro hmine
          exact hnot (.inr hmine)

theorem inv_recover_ite (hinv : Inv st) (p : Prop) [Decidable p] (id : Bytes) :
    Inv (if p then st.recoverFailedNode id else st) := by
  split
  · exact inv_recoverFailedNode hinv id
  · exact hinv

theorem inv_heard (hinv : Inv st) (now : Int) (id : Bytes) : Inv (st.heard now id) := by
  rw [heard]
  split
  · apply inv_recoverFailedNode
    exact hinv.congr (sameOwners_modifyNode st id fun _ => rfl)
  · exact hinv

/-! ## Nodes that are learned -/

theorem inv_insertNode (hinv : Inv st) (hnew : id ∉ st.nodes) {n : Node} (hempty : n.slots = []) :
    Inv { st with nodes := st.nodes.insert id n } where
  coherent := by
    intro slot hslot id' hid'
    show (∃ m, (st.nodes.insert id n)[id']? = some m ∧ _) ↔ _
    rw [Std.ExtTreeMap.getElem?_insert]
    by_cases h : id = id'
    · -- the new node holds nothing, and the table cannot name it
      subst h
      rw [if_pos Std.ReflCmp.compare_self]
      constructor
      · rintro ⟨m, hm, r, hr, -⟩
        obtain rfl := Option.some.inj hm
        rw [hempty] at hr
        cases hr
      · intro howned
        exact absurd (hinv.owner slot id howned).2 hnew
    · have hmem : id' ∈ st.nodes := by
        simpa [h] using hid'
      have hold := hinv.coherent slot hslot id' hmem
      simpa [h, Holds] using hold
  self := by
    rw [mem_insert]
    exact .inr hinv.self
  owner := by
    intro slot id' howned
    obtain ⟨hlt, hmem⟩ := hinv.owner slot id' howned
    exact ⟨hlt, mem_insert.mpr (.inr hmem)⟩

theorem inv_mergeInfo (hinv : Inv st) (now : Int) (gi : NodeInfo) : Inv (st.mergeInfo now gi) := by
  rw [mergeInfo]
  split
  · exact hinv
  · split
    · have hmerged : Inv (st.modifyNode gi.id (·.mergeGossipState gi.epoch gi.pongRecv)) :=
        hinv.congr (sameOwners_modifyNode st gi.id fun _ => rfl)
      exact inv_recover_ite (inv_recover_ite hmerged _ gi.id) _ gi.id
    · next hnew =>
      split
      · exact hinv
      · exact inv_insertNode hinv hnew rfl

/-! ## Claims and reports -/

/-- Along the claims of a payload, no slot is won from another node. -/
def ClaimsKeep : State → List Claim → Prop
  | _, [] => True
  | st, c :: cs => (st.Wins c → st.slots c.slot = none) ∧ ClaimsKeep (st.reconcile c) cs

theorem inv_reconcile (hinv : Inv st) {c : Claim} (hslot : c.slot < slotCount)
    (hkeep : st.Wins c → st.slots c.slot = none) : Inv (st.reconcile c) := by
  rw [reconcile]
  split
  · next hwins =>
    apply inv_give hinv
    · rcases hwins.2.1 with hme | hid
      · rw [hme]
        exact hinv.self
      · exact hid
    · exact fun _ => hslot
    · intro slot hstart hstop
      have hone : slot = c.slot := by omega
      rw [hone]
      exact .inl (hkeep hwins)
  · exact hinv

theorem inv_foldl_reconcile {cs : List Claim} (hinv : Inv st)
    (hslots : ∀ c ∈ cs, c.slot < slotCount) (hkeep : ClaimsKeep st cs) :
    Inv (cs.foldl reconcile st) := by
  induction cs generalizing st with
  | nil => exact hinv
  | cons c cs ih =>
    apply ih
    · exact inv_reconcile hinv (hslots c mem_cons_self) hkeep.1
    · intro c' hc'
      exact hslots c' (mem_cons_of_mem c hc')
    · exact hkeep.2

/-- The report about a node makes it FAIL. -/
def Fails (reporter : Bytes) (st : State) (id : Bytes) : Prop :=
  ¬ (id = st.myself ∨ id = reporter ∨ id ∉ st.nodes) ∧ State.Promotes { st with
      pfailReports := Function.update st.pfailReports id (insert reporter (st.pfailReports id)) } id

instance (reporter : Bytes) (st : State) (id : Bytes) : Decidable (Fails reporter st id) :=
  inferInstanceAs (Decidable (_ ∧ _))

/-- Along the reports of a payload, no node that is marked FAIL owns a slot. -/
def ReportsKeep (reporter : Bytes) : State → List Bytes → Prop
  | _, [] => True
  | st, id :: ids =>
    (Fails reporter st id → ∀ slot < slotCount, st.slots slot ≠ some id) ∧
      ReportsKeep reporter (st.report reporter id) ids

/-- What a report does: nothing, a note, or a note and the mark FAIL with a takeover. -/
theorem report_cases (reporter : Bytes) (st : State) (id : Bytes) : st.report reporter id = st ∨
    st.report reporter id = { st with
      pfailReports := Function.update st.pfailReports id (insert reporter (st.pfailReports id)) } ∨
    Fails reporter st id ∧ st.report reporter id = State.markFail { st with
      pfailReports := Function.update st.pfailReports id (insert reporter (st.pfailReports id)) } id := by
  rw [report]
  split
  · exact .inl rfl
  · next hknown =>
    dsimp only
    split
    · next hpromotes => exact .inr (.inr ⟨⟨hknown, hpromotes⟩, rfl⟩)
    · exact .inr (.inl rfl)

/-- The mark FAIL on a node without slots. -/
theorem sameOwners_markFail (hnone : ∀ slot < slotCount, st.slots slot ≠ some id) :
    SameOwners st (st.markFail id) := by
  have hpromoted : SameOwners st (st.modifyNode id Node.promote) :=
    sameOwners_modifyNode st id fun _ => rfl
  have hempty : (st.modifyNode id Node.promote).slotsOf id = [] := by
    rw [eq_nil_iff_forall_not_mem]
    intro slot hslot
    obtain ⟨hlt, howned⟩ := mem_slotsOf.mp hslot
    exact hnone slot hlt howned
  rw [markFail, usurpFailedNodeSlots, if_pos hempty]
  exact hpromoted.trans (sameOwners_of_eq rfl rfl rfl)

theorem inv_report (hinv : Inv st) {reporter : Bytes}
    (hkeep : Fails reporter st id → ∀ slot < slotCount, st.slots slot ≠ some id) :
    Inv (st.report reporter id) := by
  rcases report_cases reporter st id with heq | heq | ⟨hfails, heq⟩
  · rw [heq]
    exact hinv
  · rw [heq]
    exact hinv.congr (sameOwners_of_eq rfl rfl rfl)
  · have hnoted : SameOwners st { st with
        pfailReports := Function.update st.pfailReports id (insert reporter (st.pfailReports id)) } :=
      sameOwners_of_eq rfl rfl rfl
    rw [heq]
    exact hinv.congr (hnoted.trans (sameOwners_markFail (hkeep hfails)))

theorem inv_foldl_report {reporter : Bytes} {ids : List Bytes} (hinv : Inv st)
    (hkeep : ReportsKeep reporter st ids) : Inv (ids.foldl (report reporter) st) := by
  induction ids generalizing st with
  | nil => exact hinv
  | cons id ids ih =>
    exact ih (inv_report hinv hkeep.1) hkeep.2

/-- The state in which the claims of a payload are looked at. -/
def beforeClaims (st : State) (now : Int) (p : Payload) : State :=
  p.nodes.foldl (mergeInfo now) { st with epoch := max st.epoch p.epoch }

theorem inv_beforeClaims (hinv : Inv st) (now : Int) (p : Payload) :
    Inv (st.beforeClaims now p) := by
  have hfold : ∀ (l : List NodeInfo) (st : State), Inv st → Inv (l.foldl (mergeInfo now) st) := by
    intro l
    induction l with
    | nil =>
      intro st hinv
      exact hinv
    | cons gi l ih =>
      intro st hinv
      exact ih _ (inv_mergeInfo hinv now gi)
  exact hfold p.nodes _ (hinv.congr (sameOwners_of_eq rfl rfl rfl))

theorem sameOwners_foldl_clearMigration (st : State) (cs : List Claim) :
    SameOwners st (cs.foldl clearMigration st) := by
  induction cs generalizing st with
  | nil => exact .refl st
  | cons c cs ih =>
    exact (sameOwners_clearMigration st c).trans (ih _)

theorem inv_applyOwners (hinv : Inv st) {p : Payload} (hslots : ∀ c ∈ p.claims, c.slot < slotCount)
    (hkeep : ClaimsKeep (st.beforeClaims now p) p.claims) : Inv (st.applyOwners now p) :=
  (inv_foldl_reconcile (inv_beforeClaims hinv now p) hslots hkeep).congr
    (sameOwners_foldl_clearMigration _ p.claims)

/-! ## The other operations -/

theorem inv_assignSlot (hinv : Inv st) (hfree : st.Free id slot) : Inv (st.assignSlot slot id) := by
  rw [assignSlot]
  split
  · next hok =>
    have hgive : Inv (st.give slot slot id) := by
      apply inv_give hinv hok.2
      · exact fun _ => hok.1
      · intro s hstart hstop
        have hone : s = slot := by omega
        rw [hone]
        exact hfree
    exact hgive.congr ((sameOwners_raiseEpoch _ id).trans (sameOwners_of_eq rfl rfl rfl))
  · exact hinv

theorem inv_assignSlotRange (hinv : Inv st) {start stop : Nat}
    (hfree : ∀ slot, start ≤ slot → slot ≤ stop → st.Free id slot) :
    Inv (st.assignSlotRange start stop id) := by
  rw [assignSlotRange]
  split
  · next hok =>
    obtain ⟨-, hstop, -, hid⟩ := hok
    exact (inv_give hinv hid (fun _ => hstop) hfree).congr (sameOwners_raiseEpoch _ id)
  · exact hinv

/-- A slot of the node itself is removed from both records. -/
theorem inv_removeSlot (hinv : Inv st) (hmine : st.Free st.myself slot) :
    Inv (st.removeSlot slot) := by
  rw [removeSlot]
  split
  · rcases hmine with hnone | hmine
    · rw [hnone]
      exact hinv
    · rw [hmine]
      dsimp only
      rw [if_pos rfl]
      refine ⟨?_, ?_, ?_⟩
      · intro s hs id hid
        have hold := hinv.coherent s hs id (mem_modifyNode.mp hid)
        rw [Holds, getElem?_modifyNode]
        show _ ↔ Function.update st.slots slot none s = some id
        by_cases hself : st.myself = id
        · subst hself
          rw [if_pos rfl]
          have hranges : (∃ n, (st.nodes[st.myself]?).map
              (fun n => { n with slots := removeFrom n.slots slot }) = some n ∧ HasSlot n.slots s) ↔
                st.Holds st.myself s ∧ s ≠ slot := by
            constructor
            · rintro ⟨n, hn, hslot⟩
              obtain ⟨m, hm, rfl⟩ := Option.map_eq_some_iff.mp hn
              obtain ⟨hslot, hne⟩ := hasSlot_removeFrom.mp hslot
              exact ⟨⟨m, hm, hslot⟩, hne⟩
            · rintro ⟨⟨m, hm, hslot⟩, hne⟩
              exact ⟨_, by rw [hm, Option.map_some], hasSlot_removeFrom.mpr ⟨hslot, hne⟩⟩
          rw [hranges, hold]
          by_cases hslot : s = slot
          · subst hslot
            simp
          · simp [hslot]
        · rw [if_neg hself]
          by_cases hslot : s = slot
          · subst hslot
            -- another node does not hold the slot of the node itself
            have hnot : ¬ st.Holds id s := by
              rw [hold, hmine]
              exact fun heq => hself (Option.some.inj heq)
            rw [update_self]
            constructor
            · exact fun h => absurd h hnot
            · exact nofun
          · rw [update_of_ne hslot]
            exact hold
      · exact mem_modifyNode.mpr hinv.self
      · intro s id howned
        have howned' : Function.update st.slots slot none s = some id := howned
        by_cases hslot : s = slot
        · subst hslot
          rw [update_self] at howned'
          cases howned'
        · rw [update_of_ne hslot] at howned'
          obtain ⟨hlt, hid⟩ := hinv.owner s id howned'
          exact ⟨hlt, mem_modifyNode.mpr hid⟩
  · exact hinv

/-- The marks of `checkFailures`. -/
theorem sameOwners_mapNodes (st : State) {f : Bytes → Node → Node}
    (hf : ∀ id n, (f id n).slots = n.slots) :
    SameOwners st { st with nodes := st.nodes.map f } where
  myself := rfl
  slots := rfl
  known id := by
    rw [mem_iff_isSome_getElem?, mem_iff_isSome_getElem?,
      Std.ExtTreeMap.getElem?_map, Option.isSome_map]
  holds id slot := by
    rw [Holds, Std.ExtTreeMap.getElem?_map]
    constructor
    · rintro ⟨n, hn, hslot⟩
      obtain ⟨m, hm, rfl⟩ := Option.map_eq_some_iff.mp hn
      rw [hf] at hslot
      exact ⟨m, hm, hslot⟩
    · rintro ⟨m, hm, hslot⟩
      refine ⟨f id m, by rw [hm, Option.map_some], ?_⟩
      rw [hf]
      exact hslot

theorem inv_foldl_removeNode {l : List Bytes} (hinv : Inv st) (hne : ∀ id ∈ l, id ≠ st.myself) :
    Inv (l.foldl removeNode st) := by
  induction l generalizing st with
  | nil => exact hinv
  | cons id l ih =>
    apply ih
    · exact inv_removeNode hinv (hne id mem_cons_self)
    · intro id' hid'
      rw [removeNode_myself]
      exact hne id' (mem_cons_of_mem id hid')

theorem inv_checkFailures (hinv : Inv st) (now : Int) : Inv (st.checkFailures now) := by
  have hmarked := hinv.congr (sameOwners_mapNodes st (f := fun id (n : Node) =>
    if id ≠ st.myself ∧ ¬ n.hasFailFlag ∧ n.TimedOut now then n.markPFail else n) (by
      intro id n
      split
      · rw [Node.markPFail]
        split <;> rfl
      · rfl))
  apply inv_foldl_removeNode hmarked
  intro id hid
  rw [Std.ExtTreeMap.mem_keys, mem_iff_isSome_getElem?, Std.ExtTreeMap.getElem?_filter] at hid
  obtain ⟨n, hn⟩ := Option.isSome_iff_exists.mp hid
  obtain ⟨_, hcond⟩ := Option.pfilter_eq_some_iff.mp hn
  have hne := (of_decide_eq_true hcond).1
  rwa [getKey_eq] at hne

/-! ## Restarts -/

/-- A node that has started holds nothing yet. -/
theorem inv_of_empty (hself : st.myself ∈ st.nodes) (hslots : ∀ slot, st.slots slot = none)
    (hranges : ∀ (id : Bytes) (n : Node), st.nodes[id]? = some n → n.slots = []) : Inv st where
  coherent := by
    intro slot _ id _
    rw [hslots]
    constructor
    · rintro ⟨n, hn, r, hr, -⟩
      rw [hranges id n hn] at hr
      cases hr
    · exact nofun
  self := hself
  owner := by
    intro slot id howned
    rw [hslots] at howned
    cases howned

theorem fresh_node {myself addr : Bytes} {n : Node}
    (h : (fresh myself addr now).nodes[id]? = some n) : n.slots = [] := by
  have hget : ((∅ : Std.ExtTreeMap Bytes Node compare).insert myself
      ⟨myself, addr, [.myself, .master], 0, [], 0, now⟩)[id]? = some n := h
  rw [Std.ExtTreeMap.getElem?_insert] at hget
  split at hget
  · rw [← Option.some.inj hget]
  · simp at hget

theorem fresh_self (myself addr : Bytes) (now : Int) : myself ∈ (fresh myself addr now).nodes :=
  Std.ExtTreeMap.mem_insert_self

theorem inv_newCluster (myself addr : Bytes) (now : Int) : Inv (newCluster myself addr now) := by
  have hfresh : Inv (fresh myself addr now) :=
    inv_of_empty (fresh_self myself addr now) (fun _ => rfl) fun _ _ h => fresh_node h
  apply inv_give hfresh (fresh_self myself addr now)
  · intro _
    decide
  · intro slot _ _
    exact .inl rfl

/-- The records of the saved nodes come without ranges. -/
theorem loadNode_ranges {saved : SavedNode}
    (h : ∀ (id : Bytes) (n : Node), nodes[id]? = some n → n.slots = []) :
    ∀ (id : Bytes) (n : Node), (loadNode now nodes saved)[id]? = some n → n.slots = [] := by
  intro id n hn
  rw [loadNode] at hn
  split at hn
  · next known hknown =>
    rw [Std.ExtTreeMap.getElem?_insert] at hn
    split at hn
    · rw [← Option.some.inj hn]
      exact h saved.id known hknown
    · exact h id n hn
  · rw [Std.ExtTreeMap.getElem?_insert] at hn
    split at hn
    · rw [← Option.some.inj hn]
    · exact h id n hn

theorem mem_loadNode {saved : SavedNode} (h : id ∈ nodes) : id ∈ loadNode now nodes saved := by
  rw [loadNode]
  split <;> exact mem_insert.mpr (.inr h)

theorem foldl_loadNode (now : Int) (saved : List SavedNode) {me : Bytes} (hme : me ∈ nodes)
    (h : ∀ (id : Bytes) (n : Node), nodes[id]? = some n → n.slots = []) :
    me ∈ saved.foldl (loadNode now) nodes ∧
      ∀ (id : Bytes) (n : Node), (saved.foldl (loadNode now) nodes)[id]? = some n → n.slots = [] := by
  induction saved generalizing nodes with
  | nil => exact ⟨hme, h⟩
  | cons s saved ih => exact ih (mem_loadNode hme) (loadNode_ranges h)

/-- Ranges that agree on the slots they share are given out without taking a slot from another node. -/
theorem inv_foldl_loadOwner {l : List (SlotRange × Bytes)}
    (done : List (SlotRange × Bytes)) (hinv : Inv st)
    (hrange : ∀ o ∈ done ++ l, ∀ slot ∈ o.1.toList, slot < slotCount)
    (hagree : ∀ o ∈ done ++ l, ∀ o' ∈ done ++ l, ∀ slot, slot ∈ o.1.toList → slot ∈ o'.1.toList →
      o.2 = o'.2)
    (hdone : ∀ slot id, st.slots slot = some id → ∃ o ∈ done, slot ∈ o.1.toList ∧
      id = if o.2 ∈ st.nodes then o.2 else st.myself) : Inv (l.foldl loadOwner st) := by
  induction l generalizing st done with
  | nil => exact hinv
  | cons o l ih =>
    have hsplit : done ++ o :: l = (done ++ [o]) ++ l := by simp
    have hmem : o ∈ done ++ o :: l := mem_append_right _ mem_cons_self
    have howner : (if o.2 ∈ st.nodes then o.2 else st.myself) ∈ st.nodes := by
      split
      · assumption
      · exact hinv.self
    have hstep : Inv (st.loadOwner o) := by
      apply inv_give hinv howner
      · intro hle
        exact hrange o hmem o.1.stop (SlotRange.mem_toList.mpr ⟨hle, Nat.le_refl _⟩)
      · intro slot hstart hstop
        cases howned : st.slots slot with
        | none => exact .inl howned
        | some id =>
          obtain ⟨o', ho', hslot', rfl⟩ := hdone slot id howned
          have hsame := hagree o hmem o' (mem_append_left _ ho') slot
            (SlotRange.mem_toList.mpr ⟨hstart, hstop⟩) hslot'
          rw [hsame]
          exact .inr howned
    apply ih (done ++ [o]) hstep
    · rw [← hsplit]
      exact hrange
    · rw [← hsplit]
      exact hagree
    · intro slot id howned
      have hnodes : ∀ id', id' ∈ (st.loadOwner o).nodes ↔ id' ∈ st.nodes := fun id' => mem_give
      rw [loadOwner, give_slots] at howned
      simp only [hnodes]
      split at howned
      · next hin =>
        exact ⟨o, mem_append_right _ mem_cons_self, SlotRange.mem_toList.mpr hin,
          (Option.some.inj howned).symm⟩
      · obtain ⟨o', ho', hslot', heq⟩ := hdone slot id howned
        exact ⟨o', mem_append_left _ ho', hslot', heq⟩

theorem inv_loadState (st : State) (now : Int) (cfg : Config) : Inv (st.loadState now cfg) := by
  obtain ⟨hself, hranges⟩ := foldl_loadNode now cfg.nodes
    (fresh_self st.myself st.addr now) fun _ _ h => fresh_node h
  apply inv_foldl_loadOwner []
  · exact inv_of_empty hself (fun _ => rfl) hranges
  · exact cfg.inRange
  · exact cfg.agree
  · exact fun _ _ => nofun

end State

end BoltDB.Cluster.Topology
