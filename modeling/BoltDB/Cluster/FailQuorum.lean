import BoltDB.Cluster.Flags

/-!
# When a node is marked FAIL

A node marks another one FAIL when it has found it silent itself and enough other nodes have reported it.
The rule means a strict majority of the known nodes, counted by what each of them said last. What the code
counts is the reporters it has noted since the last recovery: a report is never withdrawn, and a reporter
need not be, or stay, a known node.

* `World` — a node, with the latest list of each sender.
* `Majority` — what the mark FAIL should stand for.
* `fail_needs_majority` — it does in every run in which noted reports stay true.
-/

namespace BoltDB.Cluster.Topology

open Bytes Transition List Std.ExtTreeMap Function Finset

/-- A node together with the failed nodes that each sender listed in its latest message. -/
structure World where
  st : State
  latest : Bytes → List Bytes

namespace World

def start (myself addr : Bytes) (now : Int) : World := ⟨State.newCluster myself addr now, fun _ => []⟩

/-- A message with a sender replaces what the sender said before. A process that starts again has not heard
from anybody. -/
def latestAfter (w : World) : Op → Bytes → List Bytes
  | .gossip _ reporter p => if reporter = [] then w.latest else Function.update w.latest reporter p.pfail
  | .restart _ => fun _ => []
  | _ => w.latest

def step (w : World) (op : Op) : Option World := (w.st.step op).map fun st => ⟨st, w.latestAfter op⟩

/-- The nodes that hold `id` to be unreachable: those that listed it last, and the node itself if it has
marked it. -/
def voters (w : World) (id : Bytes) : Finset Bytes :=
  w.st.nodes.keys.toFinset.filter fun r =>
    r = w.st.myself ∧ w.st.failFlag id = true ∨ id ∈ w.latest r

/-- **Majority.** They are more than half of the known nodes. -/
def Majority (w : World) (id : Bytes) : Prop :=
  w.st.nodes.keys.toFinset.card < 2 * (w.voters id).card

instance (w : World) (id : Bytes) : Decidable (w.Majority id) := inferInstanceAs (Decidable (_ < _))

/-- The step marks the node FAIL. A restart only reads back the marks that were saved. -/
def Marks (w : World) (op : Op) (w' : World) (id : Bytes) : Prop :=
  (∀ now, op ≠ .restart now) ∧ ¬ w.st.HasFlag id .fail ∧ w'.st.HasFlag id .fail

/-- The condition on a step. A message that reports somebody comes from another known node; a message
repeats the reports of its sender that are noted, and brings no new node with a mark; a node that is
forgotten has reported nobody. -/
def Condition (w : World) : Op → Prop
  | .gossip _ reporter p =>
    (∀ gi ∈ p.nodes, gi.id ∉ w.st.nodes → Flag.fail ∉ gi.flags ∧ Flag.pfail ∉ gi.flags) ∧
      (reporter = [] ∨ (p.pfail = [] ∨ reporter ∈ w.st.nodes ∧ reporter ≠ w.st.myself) ∧
        ∀ id, reporter ∈ w.st.pfailReports id → id ∈ p.pfail)
  | .removeNode id => ∀ id', id ∉ w.st.pfailReports id'
  | .checkFailures now => ∀ (id : Bytes) (n : Node), w.st.nodes[id]? = some n → id ≠ w.st.myself →
      n.Stale now → ∀ id', id ∉ w.st.pfailReports id'
  | _ => True

/-- The node knows itself, and what is noted is what another known node said last. -/
structure Inv (w : World) : Prop where
  self : w.st.myself ∈ w.st.nodes
  reports : ∀ id, ∀ r ∈ w.st.pfailReports id, r ∈ w.st.nodes ∧ r ≠ w.st.myself ∧ id ∈ w.latest r

/-! ## Counting -/

variable {id reporter : Bytes} {st : State} {w : World}

theorem mem_known : id ∈ st.nodes.keys.toFinset ↔ id ∈ st.nodes := by
  rw [mem_toFinset, Std.ExtTreeMap.mem_keys]

/-- The threshold for reports, together with the node's own finding, is a strict majority. -/
theorem majority_of_threshold (hinv : Inv w) (hmarked : w.st.failFlag id = true)
    (hmany : w.st.threshold ≤ (w.st.pfailReports id).card) : w.Majority id := by
  -- the reporters and the node itself all vote
  have hsub : insert w.st.myself (w.st.pfailReports id) ⊆ w.voters id := by
    intro r hr
    rw [voters, Finset.mem_filter, mem_known]
    rcases Finset.mem_insert.mp hr with rfl | hr
    · exact ⟨hinv.self, .inl ⟨rfl, hmarked⟩⟩
    · obtain ⟨hknown, -, hlast⟩ := hinv.reports id r hr
      exact ⟨hknown, .inr hlast⟩
  have hself : w.st.myself ∉ w.st.pfailReports id := by
    intro hr
    exact (hinv.reports id _ hr).2.1 rfl
  have hcard : (w.st.pfailReports id).card + 1 ≤ (w.voters id).card := by
    rw [← card_insert_of_notMem hself]
    exact card_le_card hsub
  have hsize : (w.st.nodes.erase w.st.myself).size + 1 = w.st.nodes.size := by
    have hpos : 0 < w.st.nodes.size := by
      rw [State.size_nodes, card_pos]
      exact ⟨w.st.myself, mem_known.mpr hinv.self⟩
    rw [size_erase, if_pos (mem_iff_contains.mp hinv.self)]
    omega
  rw [Majority, ← State.size_nodes, ← hsize]
  rw [State.threshold] at hmany
  omega

/-! ## Steps -/

/-- A quiet step after which the nodes that reported are still known. -/
theorem Inv.quiet (hinv : Inv w) {P : Bytes → Flag → Prop} {gone : Bytes → Prop}
    (hquiet : State.Quiet P gone w.st st) (hself : ¬ gone w.st.myself)
    (hgone : ∀ id, gone id → ∀ id', id ∉ w.st.pfailReports id') : Inv ⟨st, w.latest⟩ where
  self := by
    show st.myself ∈ st.nodes
    rw [hquiet.myself]
    exact hquiet.known _ hinv.self hself
  reports := by
    intro id r hr
    have hold := hquiet.reports id hr
    obtain ⟨hknown, hother, hlast⟩ := hinv.reports id r hold
    refine ⟨hquiet.known r hknown fun hgo => hgone r hgo id hold, ?_, hlast⟩
    show r ≠ st.myself
    rw [hquiet.myself]
    exact hother

theorem inv_report (hinv : Inv w) (hknown : reporter ∈ w.st.nodes) (hother : reporter ≠ w.st.myself)
    (hlast : id ∈ w.latest reporter) : Inv ⟨w.st.report reporter id, w.latest⟩ := by
  have heffect := State.reported_report reporter w.st id
  refine ⟨(heffect.known _).mpr ?_, ?_⟩
  · rw [heffect.myself]
    exact hinv.self
  · intro id' r hr
    rw [heffect.known, heffect.myself]
    rcases heffect.reports id' r hr with hold | ⟨rfl, rfl⟩
    · exact hinv.reports id' r hold
    · exact ⟨hknown, hother, hlast⟩

/-- The votes depend on who is known, and on the mark of the node itself. -/
theorem Majority.congr (h : w.Majority id) (hme : st.myself = w.st.myself)
    (hknown : ∀ id, id ∈ st.nodes ↔ id ∈ w.st.nodes) (hmarked : st.failFlag id = true) :
    Majority ⟨st, w.latest⟩ id := by
  have hkeys : st.nodes.keys.toFinset = w.st.nodes.keys.toFinset := by
    ext r
    rw [mem_known, mem_known, hknown]
  have hsub : w.voters id ⊆ voters ⟨st, w.latest⟩ id := by
    intro r hr
    obtain ⟨hr, hvote⟩ := Finset.mem_filter.mp hr
    rw [voters, Finset.mem_filter]
    dsimp only
    rw [hkeys, hme]
    exact ⟨hr, hvote.imp_left fun hself => ⟨hself.1, hmarked⟩⟩
  have hcard := card_le_card hsub
  rw [Majority] at h ⊢
  dsimp only
  rw [hkeys]
  omega

/-- A report that leads to the mark FAIL completes a majority, the node itself included. -/
theorem report_fail (hinv : Inv w) {id' : Bytes} (hknown : reporter ∈ w.st.nodes)
    (hother : reporter ≠ w.st.myself) (hlast : id ∈ w.latest reporter)
    (hflag : (w.st.report reporter id).HasFlag id' .fail) :
    w.st.HasFlag id' .fail ∨
      w.st.failFlag id' = true ∧ Majority ⟨w.st.report reporter id, w.latest⟩ id' := by
  have heffect := State.reported_report reporter w.st id
  rcases heffect.flags id' .fail hflag with hold | ⟨rfl, hfails⟩
  · exact .inl hold
  · have hmarked := State.failFlag_of_fails hfails
    refine .inr ⟨hmarked, ?_⟩
    -- in the state in which the report is noted, the reports reach the threshold
    let st : State := { w.st with
      pfailReports := Function.update w.st.pfailReports id' (insert reporter (w.st.pfailReports id')) }
    let noted : World := ⟨st, w.latest⟩
    have hnoted : Inv noted := by
      refine ⟨hinv.self, ?_⟩
      intro id r hr
      rcases State.mem_insert_update hr with hold | ⟨rfl, rfl⟩
      · exact hinv.reports id r hold
      · exact ⟨hknown, hother, hlast⟩
    have hmaj : noted.Majority id' := majority_of_threshold hnoted hmarked hfails.2.1
    exact hmaj.congr heffect.myself heffect.known (State.failFlag_iff.mpr (.inl hflag))

theorem foldl_report_known (reporter : Bytes) (ids : List Bytes) (st : State) :
    (ids.foldl (State.report reporter) st).myself = st.myself ∧
      ∀ id, id ∈ (ids.foldl (State.report reporter) st).nodes ↔ id ∈ st.nodes := by
  induction ids generalizing st with
  | nil => exact ⟨rfl, fun _ => Iff.rfl⟩
  | cons first ids ih =>
    have heffect := State.reported_report reporter st first
    obtain ⟨hme, hknown⟩ := ih (st.report reporter first)
    exact ⟨hme.trans heffect.myself, fun id => (hknown id).trans (heffect.known id)⟩

/-- All reports of a message. A node that they make FAIL was marked when the message came in. -/
theorem foldl_report {ids : List Bytes} {p : Payload} (hinv : Inv w)
    (hamid : State.Amid reporter p st w.st) (hknown : reporter ∈ w.st.nodes)
    (hother : reporter ≠ w.st.myself) (hlast : ∀ id ∈ ids, id ∈ w.latest reporter) :
    Inv ⟨ids.foldl (State.report reporter) w.st, w.latest⟩ ∧
      ∀ id, (ids.foldl (State.report reporter) w.st).HasFlag id .fail → w.st.HasFlag id .fail ∨
        st.MarkedWith p id ∧ Majority ⟨ids.foldl (State.report reporter) w.st, w.latest⟩ id := by
  induction ids generalizing w with
  | nil => exact ⟨hinv, fun id h => .inl h⟩
  | cons first ids ih =>
    have heffect := State.reported_report reporter w.st first
    have hlist := hlast first mem_cons_self
    have hknown' := (heffect.known reporter).mpr hknown
    have hother' : reporter ≠ (w.st.report reporter first).myself := by
      rw [heffect.myself]
      exact hother
    obtain ⟨hrest, hmarks⟩ := ih (inv_report hinv hknown hother hlist) (hamid.report first) hknown'
      hother' fun id hid => hlast id (mem_cons_of_mem first hid)
    refine ⟨hrest, ?_⟩
    intro id hflag
    rcases hmarks id hflag with hflag' | hmaj
    · rcases report_fail hinv hknown hother hlist hflag' with hold | ⟨hmarked, hmaj⟩
      · exact .inl hold
      · -- the majority of this report is still one after the others
        obtain ⟨hme, hmem⟩ := foldl_report_known reporter ids (w.st.report reporter first)
        exact .inr ⟨hamid.marks id hmarked, hmaj.congr hme hmem (State.failFlag_iff.mpr (.inl hflag))⟩
    · exact .inr hmaj

/-- What a step has to keep: the invariant, and behind every new mark FAIL a mark of the node itself and a
majority. -/
def Sound (w w' : World) : Prop :=
  Inv w' ∧ ∀ id, w'.st.HasFlag id .fail →
    w.st.HasFlag id .fail ∨ w.st.failFlag id = true ∧ w'.Majority id

theorem sound_quiet (hinv : Inv w) {gone : Bytes → Prop}
    (hquiet : State.Quiet (fun _ f => f = .fail) gone w.st st) (hself : ¬ gone w.st.myself)
    (hgone : ∀ id, gone id → ∀ id', id ∉ w.st.pfailReports id') : Sound w ⟨st, w.latest⟩ :=
  ⟨hinv.quiet hquiet hself hgone, fun id hflag => .inl (hquiet.flags id .fail rfl hflag)⟩

/-- A step that forgets nobody. -/
theorem sound_keep (hinv : Inv w)
    (hquiet : State.Quiet (fun _ f => f = .fail) (fun _ => False) w.st st) : Sound w ⟨st, w.latest⟩ :=
  sound_quiet hinv hquiet not_false fun _ h => h.elim

theorem sound_gossip (hinv : Inv w) {now : Int} {p : Payload}
    (hok : Condition w (.gossip now reporter p)) :
    Sound w ⟨w.st.applyGossipPayloadFrom now reporter p, w.latestAfter (.gossip now reporter p)⟩ := by
  obtain ⟨hlearned, hsender⟩ := hok
  have hquiet : State.Quiet (fun _ f => f = .fail) (fun _ => False) w.st (w.st.applyOwners now p) := by
    apply State.quiet_applyOwners
    rintro gi hgi hnew f hf rfl
    exact (hlearned gi hgi hnew).1 hf
  obtain ⟨howners, hmarks⟩ := sound_keep hinv hquiet
  rw [State.applyGossipPayloadFrom, State.applyReports]
  by_cases hnobody : reporter = []
  · rw [if_pos hnobody, latestAfter, if_pos hnobody]
    exact ⟨howners, hmarks⟩
  · obtain ⟨hreports, hrepeats⟩ := hsender.resolve_left hnobody
    rw [if_neg hnobody, latestAfter, if_neg hnobody]
    -- with the new list of the sender, what was noted is still what was said last
    let heard : World := ⟨w.st.applyOwners now p, Function.update w.latest reporter p.pfail⟩
    have hheard : Inv heard := by
      refine ⟨howners.self, ?_⟩
      intro id r hr
      obtain ⟨hknown, hother, hlast⟩ := howners.reports id r hr
      refine ⟨hknown, hother, ?_⟩
      show id ∈ Function.update w.latest reporter p.pfail r
      by_cases hsame : r = reporter
      · subst hsame
        rw [update_self]
        exact hrepeats id (hquiet.reports id hr)
      · rw [update_of_ne hsame]
        exact hlast
    rcases hreports with hnone | ⟨hknown, hother⟩
    · have hend : p.pfail.foldl (State.report reporter) (w.st.applyOwners now p) =
          w.st.applyOwners now p := by
        rw [hnone, foldl_nil]
      rw [hend]
      exact ⟨hheard, fun id hflag => .inl (hquiet.flags id .fail rfl hflag)⟩
    · have hamid : State.Amid reporter p w.st heard.st := State.amid_applyOwners w.st now reporter p
      obtain ⟨hend, hfails⟩ := foldl_report hheard hamid (hamid.known reporter hknown)
        (hquiet.myself ▸ hother) (fun id hid => by
          show id ∈ Function.update w.latest reporter p.pfail reporter
          rw [update_self]
          exact hid)
      refine ⟨hend, ?_⟩
      intro id hflag
      rcases hfails id hflag with hold | ⟨hmarked, hmaj⟩
      · exact .inl (hquiet.flags id .fail rfl hold)
      · -- the payload brings no marked node, so the mark is older than the message
        rcases hmarked with hmarked | ⟨hnew, gi, hgi, rfl, hmark⟩
        · exact .inr ⟨hmarked, hmaj⟩
        · obtain ⟨hfail, hpfail⟩ := hlearned gi hgi hnew
          exact absurd hmark (not_or.mpr ⟨hfail, hpfail⟩)

theorem inv_newCluster (myself addr : Bytes) (now : Int) : Inv (start myself addr now) where
  self := State.mem_give.mpr (State.fresh_self myself addr now)
  reports := nofun

/-- Nothing is noted after a restart. -/
theorem inv_restart (st : State) (now : Int) :
    Inv ⟨st.saved.elim (State.newCluster st.myself st.addr now) fun cfg => st.loadState now cfg,
      fun _ => []⟩ := by
  cases st.saved with
  | none => exact inv_newCluster st.myself st.addr now
  | some cfg =>
    have hquiet : State.Quiet (fun _ _ => True) (fun _ => False) _ (st.loadState now cfg) :=
      State.quiet_loadState st now cfg
    obtain ⟨hself, -⟩ := State.foldl_loadNode now cfg.nodes (State.fresh_self st.myself st.addr now)
      fun _ _ h => State.fresh_node h
    refine ⟨?_, ?_⟩
    · show (st.loadState now cfg).myself ∈ _
      rw [hquiet.myself]
      exact hquiet.known _ hself not_false
    · intro id r hr
      exact absurd (hquiet.reports id hr) (notMem_empty r)

theorem sound_step {w' : World} {op : Op} (hinv : Inv w) (hok : Condition w op)
    (hstep : w.step op = some w') :
    Inv w' ∧ ∀ id, Marks w op w' id → w.st.failFlag id = true ∧ w'.Majority id := by
  obtain ⟨st, hst, rfl⟩ := Option.map_eq_some_iff.mp hstep
  have hsound : Sound w ⟨st, w.latestAfter op⟩ →
      Inv ⟨st, w.latestAfter op⟩ ∧ ∀ id, Marks w op ⟨st, w.latestAfter op⟩ id →
        w.st.failFlag id = true ∧ Majority ⟨st, w.latestAfter op⟩ id := by
    rintro ⟨hinv', hmarks⟩
    exact ⟨hinv', fun id hmark => (hmarks id hmark.2.2).resolve_left hmark.2.1⟩
  cases op with
  | assignSlot slot id =>
    cases hst
    exact hsound (sound_keep hinv (State.quiet_assignSlot w.st slot id))
  | assignSlotRange start stop id =>
    cases hst
    exact hsound (sound_keep hinv (State.quiet_assignSlotRange w.st start stop id))
  | removeSlot slot =>
    cases hst
    exact hsound (sound_keep hinv (State.quiet_removeSlot w.st slot))
  | meet now id addr =>
    cases hst
    exact hsound (sound_keep hinv (State.quiet_insertNode rfl (by simp)))
  | removeNode id =>
    rw [State.step] at hst
    split at hst
    · cases hst
    · next hne =>
      apply hsound
      rw [← Option.some.inj hst]
      apply sound_quiet hinv (State.quiet_removeNode w.st (rfl : id = id))
      · exact hne
      · rintro _ rfl
        exact hok
  | heard now id =>
    cases hst
    exact hsound (sound_keep hinv (State.quiet_heard w.st now id))
  | gossip now reporter p =>
    rw [State.step] at hst
    split at hst
    · cases hst
      exact hsound (sound_gossip hinv hok)
    · cases hst
  | checkFailures now =>
    cases hst
    apply hsound
    let gone (id : Bytes) : Prop := id ≠ w.st.myself ∧ ∃ n, w.st.nodes[id]? = some n ∧ n.Stale now
    have hquiet : State.Quiet (fun _ f => f = .fail) gone w.st (w.st.checkFailures now) :=
      State.quiet_checkFailures w.st now (fun _ _ _ _ _ => by simp)
        fun id n hn hne hstale => ⟨hne, n, hn, hstale⟩
    apply sound_quiet hinv hquiet
    · exact fun hgone => hgone.1 rfl
    · rintro id ⟨hne, n, hn, hstale⟩
      exact hok id n hn hne hstale
  | save =>
    cases hst
    exact hsound ⟨⟨hinv.self, hinv.reports⟩, fun id hflag => .inl hflag⟩
  | restart now =>
    cases hst
    exact ⟨inv_restart w.st now, fun id hmark => absurd rfl (hmark.1 now)⟩

end World

/-- **The FAIL quorum.** In every run whose steps meet the condition, a step that marks a node FAIL finds it
marked already by the node itself, and has a strict majority of the known nodes behind it. -/
theorem fail_needs_majority {myself addr : Bytes} {now : Int} {ops : List Op} {op : Op} {w w' : World}
    {id : Bytes} (hrun : run World.step (World.start myself addr now) ops = some w)
    (hstep : w.step op = some w')
    (hok : Meets World.step World.Condition (World.start myself addr now) (ops ++ [op]))
    (hmark : World.Marks w op w' id) : w.st.failFlag id = true ∧ w'.Majority id := by
  obtain ⟨hbefore, hlast⟩ := (meets_append hrun).mp hok
  have hinv : World.Inv w :=
    run_invariant (fun _ _ _ hinv hok hstep => (World.sound_step hinv hok hstep).1)
      (World.inv_newCluster myself addr now) hbefore hrun
  exact (World.sound_step hinv hlast.1 hstep).2 id hmark

/-- A message that only reports nodes. -/
def reporting (ids : List Bytes) : Payload := ⟨0, [], [], ids⟩

/-- The message that completes the reports about a node. -/
theorem marks_reporting (w : World) (now : Int) (reporter id : Bytes) (hsender : reporter ≠ [])
    (hnot : ¬ w.st.HasFlag id .fail)
    (hfails : State.Fails reporter (w.st.applyOwners now (reporting [id])) id) :
    ∃ w', w.step (.gossip now reporter (reporting [id])) = some w' ∧
      World.Marks w (.gossip now reporter (reporting [id])) w' id ∧
      (w'.Majority id → World.Majority ⟨w.st.applyOwners now (reporting [id]),
        Function.update w.latest reporter [id]⟩ id) := by
  have hstep : w.st.step (.gossip now reporter (reporting [id])) =
      some ((w.st.applyOwners now (reporting [id])).report reporter id) := by
    rw [State.step, if_pos (by simp [reporting, Payload.claims]), State.applyGossipPayloadFrom,
      State.applyReports, if_neg hsender]
    rfl
  have hlatest : w.latestAfter (.gossip now reporter (reporting [id])) =
      Function.update w.latest reporter [id] := by
    rw [World.latestAfter, if_neg hsender]
    rfl
  have heffect := State.reported_report reporter (w.st.applyOwners now (reporting [id])) id
  refine ⟨⟨(w.st.applyOwners now (reporting [id])).report reporter id,
    Function.update w.latest reporter [id]⟩, ?_, ⟨?_, hnot, State.hasFlag_report hfails⟩, ?_⟩
  · rw [World.step, hstep, Option.map_some, hlatest]
  · intro now' heq
    cases heq
  · exact fun hmaj => hmaj.congr heffect.myself.symm (fun id => (heffect.known id).symm)
      (State.failFlag_of_fails hfails)

/-- Node 1 has met two nodes and has heard from node 2 only. -/
def metTwo : State := ((State.newCluster [1] [10] 0).meet 1 [2] [20]).meet 1 [3] [30]

def silentThree : World := ⟨(metTwo.heard 5000 [2]).checkFailures 6002, fun _ => []⟩

theorem fail_needs_majority_silentThree : ∃ w' : World,
    run World.step (World.start [1] [10] 0)
      [.meet 1 [2] [20], .meet 1 [3] [30], .heard 5000 [2], .checkFailures 6002] = some silentThree ∧
    silentThree.step (.gossip 6003 [2] (reporting [[3]])) = some w' ∧
    World.Marks silentThree (.gossip 6003 [2] (reporting [[3]])) w' [3] ∧
    silentThree.st.failFlag [3] = true ∧ w'.Majority [3] := by
  have hrun : run World.step (World.start [1] [10] 0)
      [.meet 1 [2] [20], .meet 1 [3] [30], .heard 5000 [2], .checkFailures 6002] = some silentThree :=
    rfl
  obtain ⟨w', hstep, hmark, -⟩ := marks_reporting silentThree 6003 [2] [3] (by decide)
    (by decide +kernel) (by decide +kernel)
  -- nobody is reported before the message
  have hheard : State.Quiet (fun _ _ => False) (fun _ => True) metTwo (metTwo.heard 5000 [2]) :=
    State.quiet_heard metTwo 5000 [2]
  have hchecked : State.Quiet (fun _ _ => False) (fun _ => True) (metTwo.heard 5000 [2]) silentThree.st :=
    State.quiet_checkFailures _ 6002 (fun _ _ _ _ _ => not_false) fun _ _ _ _ _ => trivial
  have hcheck : World.Condition ⟨metTwo.heard 5000 [2], fun _ => []⟩ (.checkFailures 6002) := by
    intro id n _ _ _ id' hr
    exact absurd (hheard.reports id' hr) (notMem_empty _)
  have hgossip : World.Condition silentThree (.gossip 6003 [2] (reporting [[3]])) := by
    have hknown : ([2] : Bytes) ∈ silentThree.st.nodes := by decide +kernel
    have hother : ([2] : Bytes) ≠ silentThree.st.myself := by
      rw [hchecked.myself, hheard.myself]
      decide
    refine ⟨nofun, .inr ⟨.inr ⟨hknown, hother⟩, ?_⟩⟩
    intro id hr
    exact absurd ((hheard.trans hchecked).reports id hr) (notMem_empty _)
  refine ⟨w', hrun, hstep, hmark, fail_needs_majority hrun hstep ((meets_append hrun).mpr ⟨?_, ?_⟩) hmark⟩
  · have hthird : World.step ⟨metTwo.heard 5000 [2], fun _ => []⟩ (.checkFailures 6002) =
        some silentThree := rfl
    exact Meets.cons trivial rfl (Meets.cons trivial rfl (Meets.cons trivial rfl
      (Meets.cons hcheck hthird trivial)))
  · exact Meets.cons hgossip hstep trivial

/-- Node 1 has met the nodes 2 to 5 and has not heard from node 5. -/
def metFour : List Op := [.meet 1 [2] [20], .meet 1 [3] [30], .meet 1 [4] [40], .meet 1 [5] [50],
    .heard 5000 [2], .heard 5000 [3], .heard 5000 [4], .checkFailures 6002]

/-- Node 2 reports node 5 and then takes the report back; the report of node 3 is enough all the same. -/
theorem withdrawn_report_counts : ∃ w w' : World,
    run World.step (World.start [1] [10] 0)
      (metFour ++ [.gossip 6003 [2] (reporting [[5]]), .gossip 6004 [2] (reporting [])]) = some w ∧
    w.step (.gossip 6005 [3] (reporting [[5]])) = some w' ∧
    World.Marks w (.gossip 6005 [3] (reporting [[5]])) w' [5] ∧ ¬ w'.Majority [5] := by
  obtain ⟨w, hrun, hnot, hfails, hfew⟩ : ∃ w : World, run World.step (World.start [1] [10] 0)
      (metFour ++ [.gossip 6003 [2] (reporting [[5]]), .gossip 6004 [2] (reporting [])]) = some w ∧
        ¬ w.st.HasFlag [5] .fail ∧
        State.Fails [3] (w.st.applyOwners 6005 (reporting [[5]])) [5] ∧
        ¬ World.Majority ⟨w.st.applyOwners 6005 (reporting [[5]]),
          Function.update w.latest [3] [[5]]⟩ [5] := run_end (by decide +kernel)
  obtain ⟨w', hstep, hmark, hmaj⟩ := marks_reporting w 6005 [3] [5] (by decide) hnot hfails
  exact ⟨w, w', hrun, hstep, hmark, fun h => hfew (hmaj h)⟩

end BoltDB.Cluster.Topology
