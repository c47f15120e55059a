import BoltDB.Cluster.Net

/-!
# The successors of a failed node

A node takes over the slots of another one when it marks it FAIL, when it finds it stale and forgets it,
and when it is told to forget it. Each node decides on its own: there is no vote for the successor, and a
takeover raises no epoch that could settle it later.

* `TakesOver` — an operation by which a node takes over the slots of another.
* `Watch` — the nodes, with those that have taken over the slots of one node so far.
* `single_successor` — there is one successor at most if reports reach one node only of those that found
  the failed node silent.
-/

namespace BoltDB.Cluster.Topology

open Bytes Transition Function

namespace State

-- a goal must not be decided by going through all slots
attribute [local irreducible] slotsOf

/-- One of the reports marks the node FAIL while it owns slots. -/
def ReportsTake (failed reporter : Bytes) : State → List Bytes → Prop
  | _, [] => False
  | st, id :: ids =>
    (id = failed ∧ Fails reporter st id ∧ st.slotsOf failed ≠ []) ∨
      ReportsTake failed reporter (st.report reporter id) ids

instance ReportsTake.decidable (failed reporter : Bytes) (st : State) :
    (ids : List Bytes) → Decidable (ReportsTake failed reporter st ids)
  | [] => .isFalse id
  | id :: ids =>
    have := ReportsTake.decidable failed reporter (st.report reporter id) ids
    inferInstanceAs (Decidable (_ ∨ _))

/-- The operation takes over the slots of the node. -/
def TakesOver (failed : Bytes) (st : State) : Op → Prop
  | .gossip now reporter p =>
    reporter ≠ [] ∧ ReportsTake failed reporter (st.applyOwners now p) p.pfail
  | .checkFailures now =>
    failed ≠ st.myself ∧ st.slotsOf failed ≠ [] ∧ (st.nodes[failed]?).any (·.Stale now) = true
  | .removeNode id => id = failed ∧ st.slotsOf failed ≠ []
  | _ => False

instance (failed : Bytes) (st : State) (op : Op) : Decidable (TakesOver failed st op) := by
  unfold TakesOver
  split <;> infer_instance

end State

/-- The nodes, and those that have taken over the slots of one node. -/
structure Watch (ι : Type) where
  net : Net ι
  takers : List ι

namespace Watch

variable {ι : Type} [DecidableEq ι]

def step (failed : Bytes) (w : Watch ι) (a : Act ι) : Option (Watch ι) :=
  (w.net.step a).map fun net => ⟨net, match w.net.op a with
    | some (i, op) => if State.TakesOver failed (w.net.node i) op then i :: w.takers else w.takers
    | none => w.takers⟩

/-- The node holds the slot, which it has on its list of slots of the failed node. -/
def Usurps (w : Watch ι) (failed : Bytes) (i : ι) (slot : Nat) : Prop :=
  (w.net.node i).slots slot = some (w.net.node i).myself ∧
    ∃ ranges, (w.net.node i).usurped failed = some ranges ∧ HasSlot ranges slot

/-- **One successor.** One node at most has ever taken over the slots, and no slot is held by two nodes that
took it over. -/
def SingleSuccessor (w : Watch ι) (failed : Bytes) : Prop :=
  (∀ i ∈ w.takers, ∀ j ∈ w.takers, i = j) ∧
    ∀ i j slot, w.Usurps failed i slot → w.Usurps failed j slot → i = j

/-- The condition on an operation of a node other than the successor: no report about the failed node
completes the reports there while the node has the failed one marked, or comes with a record of it that is
marked; and the node does not forget it. -/
def Unaware (failed : Bytes) (st : State) : Op → Prop
  | .gossip _ reporter p => ¬ st.MayFail reporter p failed
  | .checkFailures now => failed = st.myself ∨ (st.nodes[failed]?).any (·.Stale now) = false
  | .removeNode id => id ≠ failed
  | _ => True

instance (failed : Bytes) (st : State) (op : Op) : Decidable (Unaware failed st op) := by
  unfold Unaware
  split <;> infer_instance

/-- The operation does not meet a node that is known. -/
def MeetsNew (st : State) : Op → Prop
  | .meet _ id _ => id ∉ st.nodes
  | _ => True

instance (st : State) (op : Op) : Decidable (MeetsNew st op) := by
  unfold MeetsNew
  split <;> infer_instance

/-- Only one node, the successor, has to do with the failure. -/
def Condition (failed : Bytes) (successor : ι) (w : Watch ι) (a : Act ι) : Prop :=
  match w.net.op a with
  | some (i, op) => MeetsNew (w.net.node i) op ∧ (i = successor ∨ Unaware failed (w.net.node i) op)
  | none => True

instance (failed : Bytes) (successor : ι) (w : Watch ι) (a : Act ι) :
    Decidable (Condition failed successor w a) := by
  unfold Condition
  split <;> infer_instance

/-- A node that has no slots of the failed one on its list, and none in what it has saved. -/
structure Clean (failed : Bytes) (st : State) : Prop where
  usurped : st.usurped failed = none
  saved : ∀ cfg, st.saved = some cfg → cfg.usurped failed = none

attribute [local irreducible] State.slotsOf

variable {failed : Bytes} {st : State}

theorem Clean.quiet {gone : Bytes → Prop} {st' : State} (h : Clean failed st)
    (hquiet : State.Quiet (fun _ _ => False) gone st st') : Clean failed st' where
  usurped := by
    by_contra hne
    exact hquiet.usurped failed hne h.usurped
  saved := by
    rw [hquiet.saved]
    exact h.saved

theorem Clean.keep {st' : State} (h : Clean failed st)
    (hquiet : State.Quiet (fun _ _ => False) (fun _ => False) st st') : Clean failed st' :=
  h.quiet hquiet

/-! ## Reports -/

theorem Clean.report (h : Clean failed st) {reporter id : Bytes}
    (hnot : id = failed → ¬ State.Fails reporter st id) : Clean failed (st.report reporter id) := by
  have heffect := State.reported_report reporter st id
  refine ⟨?_, ?_⟩
  · by_contra hne
    rcases heffect.usurped failed hne with hold | ⟨rfl, hfails, -⟩
    · exact hold h.usurped
    · exact hnot rfl hfails
  · rw [heffect.saved]
    exact h.saved

/-- The reports of a payload that cannot make the node FAIL. The induction is over the reports that are
still to come, in a state on the way through the payload. -/
theorem Clean.reports {st' : State} {reporter : Bytes} {p : Payload} {ids : List Bytes}
    (h : Clean failed st') (hamid : State.Amid reporter p st st') (hids : ids ⊆ p.pfail)
    (hsender : reporter ≠ []) (hnot : ¬ st.MayFail reporter p failed) :
    Clean failed (ids.foldl (State.report reporter) st') ∧
      ¬ State.ReportsTake failed reporter st' ids := by
  induction ids generalizing st' with
  | nil => exact ⟨h, id⟩
  | cons id ids ih =>
    have hone : id = failed → ¬ State.Fails reporter st' id := by
      rintro rfl hfails
      exact hnot (hamid.mayFail hsender (hids List.mem_cons_self) hfails)
    obtain ⟨hend, hnone⟩ := ih (h.report hone) (hamid.report id) fun _ hid =>
      hids (List.mem_cons_of_mem id hid)
    refine ⟨hend, ?_⟩
    rintro (⟨hid, hfails, -⟩ | htakes)
    · exact hone hid hfails
    · exact hnone htakes

/-! ## Steps -/

theorem clean_newCluster (failed myself addr : Bytes) (now : Int) :
    Clean failed (State.newCluster myself addr now) := ⟨rfl, nofun⟩

theorem Clean.restart (h : Clean failed st) (now : Int) :
    Clean failed (st.saved.elim (State.newCluster st.myself st.addr now) fun cfg =>
      st.loadState now cfg) := by
  cases hsaved : st.saved with
  | none => exact clean_newCluster failed st.myself st.addr now
  | some cfg =>
    have husurped := h.saved cfg hsaved
    have hquiet : State.Quiet (fun _ _ => False) (fun _ => False) _ (st.loadState now cfg) :=
      State.quiet_loadState st now cfg
    refine Clean.keep ⟨husurped, ?_⟩ hquiet
    rintro _ ⟨⟩
    exact husurped

/-- A node that does not notice the failure takes nothing over. -/
theorem Clean.step {st' : State} {op : Op} (h : Clean failed st) (hok : Unaware failed st op)
    (hstep : st.step op = some st') : Clean failed st' ∧ ¬ State.TakesOver failed st op := by
  cases op with
  | assignSlot slot id =>
    cases hstep
    exact ⟨h.keep (State.quiet_assignSlot st slot id), not_false⟩
  | assignSlotRange start stop id =>
    cases hstep
    exact ⟨h.keep (State.quiet_assignSlotRange st start stop id), not_false⟩
  | removeSlot slot =>
    cases hstep
    exact ⟨h.keep (State.quiet_removeSlot st slot), not_false⟩
  | meet now id addr =>
    cases hstep
    exact ⟨h.keep (State.quiet_insertNode rfl (by simp)), not_false⟩
  | removeNode id =>
    rw [State.step] at hstep
    split at hstep
    · cases hstep
    · rw [← Option.some.inj hstep]
      exact ⟨h.quiet (State.quiet_removeNode st (rfl : id = id)), fun htakes => hok htakes.1⟩
  | heard now id =>
    cases hstep
    exact ⟨h.keep (State.quiet_heard st now id), not_false⟩
  | gossip now reporter p =>
    rw [State.step] at hstep
    split at hstep
    · cases hstep
      have howners : Clean failed (st.applyOwners now p) :=
        h.keep (State.quiet_applyOwners st now p fun _ _ _ _ _ => not_false)
      rw [State.applyGossipPayloadFrom, State.applyReports]
      split
      · next hnobody => exact ⟨howners, fun htakes => htakes.1 hnobody⟩
      · next hsender =>
        obtain ⟨hend, hnone⟩ := howners.reports (State.amid_applyOwners st now reporter p)
          (List.Subset.refl _) hsender hok
        exact ⟨hend, fun htakes => hnone htakes.2⟩
    · cases hstep
  | checkFailures now =>
    cases hstep
    have hquiet : State.Quiet (fun _ _ => False) (fun _ => True) st (st.checkFailures now) :=
      State.quiet_checkFailures st now (fun _ _ _ _ _ => not_false) fun _ _ _ _ _ => trivial
    refine ⟨h.quiet hquiet, ?_⟩
    rintro ⟨hne, -, hstale⟩
    rcases hok with hself | hfresh
    · exact hne hself
    · rw [hfresh] at hstale
      cases hstale
  | save =>
    cases hstep
    refine ⟨⟨h.usurped, ?_⟩, not_false⟩
    rintro _ ⟨⟩
    exact h.usurped
  | restart now =>
    cases hstep
    exact ⟨h.restart now, not_false⟩

/-- All nodes but the successor have taken nothing over. -/
structure Inv (failed : Bytes) (successor : ι) (w : Watch ι) : Prop where
  clean : ∀ i, i ≠ successor → Clean failed (w.net.node i)
  takers : ∀ i ∈ w.takers, i = successor

theorem inv_step {successor : ι} {w w' : Watch ι} {a : Act ι} (hinv : Inv failed successor w)
    (hok : Condition failed successor w a) (hstep : w.step failed a = some w') :
    Inv failed successor w' := by
  obtain ⟨net, hnet, rfl⟩ := Option.map_eq_some_iff.mp hstep
  rcases Net.step_cases hnet with ⟨i, p, rfl, -, rfl⟩ | ⟨i, op, st, hop, hst, rfl⟩
  · exact ⟨hinv.clean, hinv.takers⟩
  · rw [hop]
    dsimp only
    by_cases hi : i = successor
    · subst hi
      refine ⟨?_, ?_⟩
      · intro j hj
        show Clean failed (Function.update w.net.node i st j)
        rw [update_of_ne hj]
        exact hinv.clean j hj
      · intro j hj
        split at hj
        · exact (List.mem_cons.mp hj).elim id (hinv.takers j)
        · exact hinv.takers j hj
    · rw [Condition, hop] at hok
      obtain ⟨hclean, hnot⟩ := (hinv.clean i hi).step (hok.2.resolve_left hi) hst
      rw [if_neg hnot]
      refine ⟨?_, hinv.takers⟩
      intro j hj
      show Clean failed (Function.update w.net.node i st j)
      by_cases hij : j = i
      · subst hij
        rw [update_self]
        exact hclean
      · rw [update_of_ne hij]
        exact hinv.clean j hj

/-- Only the successor has slots of the failed node on its list. -/
theorem Inv.single {successor : ι} {w : Watch ι} (hinv : Inv failed successor w) :
    w.SingleSuccessor failed := by
  have husurps : ∀ i slot, w.Usurps failed i slot → i = successor := by
    rintro i slot ⟨-, ranges, hranges, -⟩
    by_contra hi
    rw [(hinv.clean i hi).usurped] at hranges
    cases hranges
  refine ⟨?_, ?_⟩
  · intro i hi j hj
    exact (hinv.takers i hi).trans (hinv.takers j hj).symm
  · intro i j slot hi hj
    exact (husurps i slot hi).trans (husurps j slot hj).symm

end Watch

/-- **A single successor.** In every run of nodes that have taken nothing over at first, one node at most
takes over the slots of the failed one if the steps of all other nodes meet the condition. -/
theorem single_successor {ι : Type} [DecidableEq ι] {failed : Bytes} {successor : ι} {net : Net ι}
    {as : List (Act ι)} {w : Watch ι} (hclean : ∀ i, Watch.Clean failed (net.node i))
    (hrun : run (Watch.step failed) ⟨net, []⟩ as = some w)
    (hok : Meets (Watch.step failed) (Watch.Condition failed successor) ⟨net, []⟩ as) :
    w.SingleSuccessor failed := by
  have hstart : Watch.Inv failed successor ⟨net, []⟩ := ⟨fun i _ => hclean i, nofun⟩
  have hinv : Watch.Inv failed successor w :=
    run_invariant (fun _ _ _ hinv hok hstep => Watch.inv_step hinv hok hstep) hstart hok hrun
  exact hinv.single

/-- A view of three nodes with one slot each, the third of which has been silent. -/
def threeNodes (me : Bytes) : State where
  myself := me
  addr := me
  nodes := (((∅ : Std.ExtTreeMap Bytes Node compare).insert [1] ⟨[1], [1], [], 1, [⟨1, 1⟩], 6000, 1⟩).insert
    [2] ⟨[2], [2], [], 1, [⟨2, 2⟩], 6000, 1⟩).insert [3] ⟨[3], [3], [], 1, [⟨3, 3⟩], 1, 1⟩
  slots := fun slot =>
    if slot = 1 then some [1] else if slot = 2 then some [2] else if slot = 3 then some [3] else none
  epoch := 1
  pfailReports := fun _ => ∅
  usurped := fun _ => none
  migrating := fun _ => none
  importing := fun _ => none
  saved := none

/-- The two nodes that are left. -/
def twoLeft : Net Bool := ⟨fun first => threeNodes (if first then [1] else [2]), []⟩

theorem twoLeft_clean (i : Bool) : Watch.Clean [3] (twoLeft.node i) := ⟨rfl, nofun⟩

/-- A payload without a gossip section. -/
def payloadOf (st : State) : Payload := ⟨st.epoch, st.slotOwners, [], st.unreachable⟩

/-- Both find the third node silent and say so. -/
def bothReport : List (Act Bool) :=
  [.perform true (.checkFailures 6002), .perform false (.checkFailures 6002),
    .send true (payloadOf ((twoLeft.node true).checkFailures 6002)),
    .send false (payloadOf ((twoLeft.node false).checkFailures 6002))]

/-- Only the first node hears of the other's report. -/
theorem single_successor_twoLeft : ∃ w : Watch Bool,
    run (Watch.step [3]) ⟨twoLeft, []⟩ (bothReport ++ [.deliver true 6003 1]) = some w ∧
      w.takers = [true] ∧ w.SingleSuccessor [3] := by
  obtain ⟨w, hrun, htakers⟩ : ∃ w : Watch Bool,
      run (Watch.step [3]) ⟨twoLeft, []⟩ (bothReport ++ [.deliver true 6003 1]) = some w ∧
        w.takers = [true] := run_end (by decide +kernel)
  have hok : Meets (Watch.step [3]) (Watch.Condition [3] true) ⟨twoLeft, []⟩
      (bothReport ++ [.deliver true 6003 1]) := by decide +kernel
  exact ⟨w, hrun, htakers, single_successor twoLeft_clean hrun hok⟩

/-- Each hears of the other's report. -/
theorem two_successors : ∃ w : Watch Bool, run (Watch.step [3]) ⟨twoLeft, []⟩
    (bothReport ++ [.deliver true 6003 1, .deliver false 6004 0]) = some w ∧
      ¬ w.SingleSuccessor [3] := by
  obtain ⟨w, hrun, hfirst, hsecond⟩ : ∃ w : Watch Bool, run (Watch.step [3]) ⟨twoLeft, []⟩
      (bothReport ++ [.deliver true 6003 1, .deliver false 6004 0]) = some w ∧
        true ∈ w.takers ∧ false ∈ w.takers := run_end (by decide +kernel)
  refine ⟨w, hrun, ?_⟩
  rintro ⟨hsingle, -⟩
  cases hsingle true hfirst false hsecond

end BoltDB.Cluster.Topology
