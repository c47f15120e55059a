import BoltDB.Sentinel.Monitor

/-!
# What a failover rests on

A sentinel starts a failover when it has counted enough reports. Reports carry no address and are never taken
back: a sentinel that finds the master again clears its own list, but no other; a new address of the master
clears none; and an operator's failover that fails leaves a state that passes for enough reports. `Watch`
keeps beside the sentinels what each of them said last.

* `Watch.Evidence` — enough sentinels hold, by what they said last, that the address is down.
* `Condition` — reports stay true for as long as they are counted.
* `failover_needs_current_quorum` — then every automatic failover rests on evidence.
-/

namespace BoltDB.Sentinel

open Bytes Transition List Function Option

variable {ι : Type}

/-- The sentinels, the address that each said is down in its last report, and whether the address of the master
changed since the reports were cleared. -/
structure Watch (ι : Type) where
  world : World ι
  latest : ι → Option Bytes
  moved : ι → Bool

/-- The goroutine has passed the check of `AutoFailover`, or was started by an operator. -/
def Stage.Past : Stage → Prop
  | .isODown | .canFailover | .recordFailover | .autoIsODown | .returned => False
  | _ => True

instance : DecidablePred Stage.Past
  | .isODown | .canFailover | .recordFailover | .autoIsODown | .returned => .isFalse id
  | .autoGetState | .isDown _ | .getState _ | .setState _ | .selectNewMaster | .executeFailover _
  | .updateConfiguration _ | .fail => .isTrue trivial

/-- The goroutine has seen the master down. -/
def Stage.Down : Stage → Prop
  | .autoGetState | .isDown _ => False
  | stage => stage.Past

namespace Watch

variable [DecidableEq ι]

def master (g : Watch ι) (i : ι) : MasterInstance ι := (g.world.node i).master

/-- A detection reports the pinged address, a recovery takes the report back. -/
def latestAfter (g : Watch ι) : Act ι → ι → Option Bytes
  | .checkMaster i answered now =>
    match (g.world.node i).check with
    | .pinging addr _ =>
      if answered then
        if (g.master i).state = .sdown then Function.update g.latest i none else g.latest
      else if (g.master i).Detects now then Function.update g.latest i (some addr)
      else g.latest
    | _ => g.latest
  | _ => g.latest

def movedAfter (g : Watch ι) : Act ι → ι → Bool
  | .checkMaster i answered _ =>
    if answered ∧ (g.master i).state = .sdown then Function.update g.moved i false else g.moved
  | .advance i k _ =>
    match (g.world.node i).threads[k]? with
    | some (.updateConfiguration _) => Function.update g.moved i true
    | _ => g.moved
  | _ => g.moved

def step (g : Watch ι) (a : Act ι) : Option (Watch ι) :=
  (g.world.step a).map fun w => ⟨w, g.latestAfter a, g.movedAfter a⟩

def start (addr : Bytes) (quorum downAfter : ι → Int) (now : Int) : Watch ι :=
  ⟨World.start addr quorum downAfter now, fun _ => none, fun _ => false⟩

/-- **The evidence.** At least `quorum` sentinels, this one among them, said last that the address this one
has for the master is down. -/
def Evidence (g : Watch ι) (i : ι) : Prop :=
  ∃ holders : List ι, holders.Nodup ∧ i ∈ holders ∧ (g.master i).quorum ≤ holders.length ∧
    ∀ j ∈ holders, g.latest j = some (g.master i).addr

end Watch

/-- The address that was pinged. -/
def Check.pinged : Check → Option Bytes
  | .pinging addr _ => some addr
  | _ => none

/-- The condition. A sentinel finds the master again only while no other counts its report and none of its
own failovers is under way; it reports another address only while no other counts its last one; a report
arrives while it is its sender's last and names the receiver's address; an operator starts a failover only
with enough reports; and a failover starts only if the address did not change since the reports were
cleared. -/
def Condition (g : Watch ι) : Act ι → Prop
  | .checkMaster i true _ => (g.master i).state = .sdown →
      (∀ j, j ≠ i → g.moved j = true ∨ i ∉ (g.master j).sdownReporters) ∧
        ∀ stage ∈ (g.world.node i).threads, ¬ stage.Past
  | .checkMaster i false now => (g.master i).Detects now →
      ∀ j, j ≠ i → g.moved j = true ∨ i ∉ (g.master j).sdownReporters ∨
        (g.world.node i).check.pinged = some (g.master j).addr
  | .handleSdown n => ∀ p ∈ g.world.wire[n]?,
      g.moved p.receiver = true ∨ g.latest p.source = some (g.master p.receiver).addr
  | .command i => (g.master i).quorum ≤ (g.master i).sdownReporters.length
  | .advance i k _ => (g.world.node i).threads[k]? = some (.setState true) → g.moved i = false
  | _ => True

/-! ## One sentinel -/

/-- The sentinel is on its way to a failover, or through with one. -/
def Node.Committed (n : Node ι) : Prop :=
  (n.master.state = .odown ∨ n.master.state = .failover) ∨ ∃ stage ∈ n.threads, stage.Past

/-- The sentinel, or one of its goroutines, has seen the master down. -/
def Node.SawDown (n : Node ι) : Prop := n.master.state ≠ .ok ∨ ∃ stage ∈ n.threads, stage.Down

/-- What holds of a sentinel, by what all of them said last. -/
structure Node.Sound (latest : ι → Option Bytes) (moved : Bool) (i : ι) (n : Node ι) : Prop where
  nodup : n.master.sdownReporters.Nodup
  fresh : moved = false → ∀ s ∈ n.master.sdownReporters, latest s = some n.master.addr
  pinged : moved = false → ∀ addr last, n.check = .pinging addr last → addr = n.master.addr
  counted : n.Committed → n.master.quorum ≤ n.master.sdownReporters.length
  own : n.SawDown → i ∈ n.master.sdownReporters

namespace Node

/-- Only more reports are counted. -/
theorem Sound.grow {latest latest' : ι → Option Bytes} {moved moved' : Bool} {i : ι} {n n' : Node ι}
    (h : Sound latest moved i n) (hquorum : n'.master.quorum = n.master.quorum)
    (hgrow : n.master.sdownReporters ⊆ n'.master.sdownReporters)
    (hnodup : n'.master.sdownReporters.Nodup)
    (hfresh : moved' = false → ∀ s ∈ n'.master.sdownReporters, latest' s = some n'.master.addr)
    (hpinged : moved' = false → ∀ addr last, n'.check = .pinging addr last → addr = n'.master.addr)
    (hcommitted : n'.Committed → n.Committed ∨ n'.master.quorum ≤ n'.master.sdownReporters.length)
    (hdown : n'.SawDown → n.SawDown ∨ i ∈ n'.master.sdownReporters) :
    Sound latest' moved' i n' := by
  refine ⟨hnodup, hfresh, hpinged, ?_, ?_⟩
  · intro hcom
    rcases hcommitted hcom with hold | hnew
    · have hlen := (h.nodup.subperm hgrow).length_le
      have hcount := h.counted hold
      omega
    · exact hnew
  · intro hsaw
    rcases hdown hsaw with hold | hnew
    · exact hgrow (h.own hold)
    · exact hnew

/-- The reports stay as they are. -/
theorem Sound.keep {latest : ι → Option Bytes} {moved : Bool} {i : ι} {n n' : Node ι}
    (h : Sound latest moved i n) (hquorum : n'.master.quorum = n.master.quorum)
    (hreporters : n'.master.sdownReporters = n.master.sdownReporters)
    (haddr : n'.master.addr = n.master.addr)
    (hpinged : ∀ addr last, n'.check = .pinging addr last →
      n.check = .pinging addr last ∨ addr = n.master.addr)
    (hcommitted : n'.Committed → n.Committed ∨ n.master.quorum ≤ n.master.sdownReporters.length)
    (hdown : n'.SawDown → n.SawDown ∨ i ∈ n.master.sdownReporters) : Sound latest moved i n' := by
  apply h.grow hquorum
  · rw [hreporters]
    exact fun _ hs => hs
  · rw [hreporters]
    exact h.nodup
  · rw [hreporters, haddr]
    exact h.fresh
  · intro hmoved addr last hcheck
    rw [haddr]
    rcases hpinged addr last hcheck with hold | hnew
    · exact h.pinged hmoved addr last hold
    · exact hnew
  · rw [hreporters, hquorum]
    exact hcommitted
  · rw [hreporters]
    exact hdown

variable {new : Stage}

/-- A goroutine is started. -/
theorem exists_of_spawn {P : Stage → Prop} {threads : List Stage} (hnew : ¬ P new)
    (h : ∃ stage ∈ threads ++ [new], P stage) : ∃ stage ∈ threads, P stage := by
  obtain ⟨stage, hmem, hstage⟩ := h
  rcases mem_append.mp hmem with hold | hlast
  · exact ⟨stage, hold, hstage⟩
  · rw [mem_singleton.mp hlast] at hstage
    exact absurd hstage hnew

theorem committed_spawn {n : Node ι} {m : MasterInstance ι} {check : Check}
    (h : Committed ⟨m, check, n.threads ++ [new]⟩) (hstate : m.state = n.master.state)
    (hnew : ¬ new.Past) : n.Committed :=
  h.imp (fun hst => hstate ▸ hst) (exists_of_spawn hnew)

theorem sawDown_spawn {n : Node ι} {m : MasterInstance ι} {check : Check}
    (h : SawDown ⟨m, check, n.threads ++ [new]⟩) (hstate : m.state = n.master.state)
    (hnew : ¬ new.Down) : n.SawDown :=
  h.imp (fun hst => hstate ▸ hst) (exists_of_spawn hnew)

end Node

/-! ## The steps of a goroutine -/

namespace Stage

theorem past_of_down {stage : Stage} (h : stage.Down) : stage.Past := by
  cases stage <;> first | exact h | trivial

variable (m : MasterInstance ι) (env : Env) (stage : Stage)

theorem advance_reporters : (stage.advance m env).1.sdownReporters = m.sdownReporters ∧
    (stage.advance m env).1.quorum = m.quorum := by
  cases stage with
  | selectNewMaster =>
    rw [advance]
    split <;> exact ⟨rfl, rfl⟩
  | _ => exact ⟨rfl, rfl⟩

/-- Only the end of a failover changes the address. -/
theorem advance_addr (h : ∀ slave, stage ≠ .updateConfiguration slave) :
    (stage.advance m env).1.addr = m.addr := by
  cases stage with
  | selectNewMaster =>
    rw [advance]
    split <;> rfl
  | updateConfiguration slave => exact absurd rfl (h slave)
  | _ => rfl

/-- Who changes the state has seen the master down. -/
theorem advance_state : (stage.advance m env).1.state = m.state ∨ stage.Down := by
  cases stage with
  | selectNewMaster => exact .inr trivial
  | setState auto => exact .inr trivial
  | updateConfiguration slave => exact .inr trivial
  | fail => exact .inr trivial
  | _ => exact .inl rfl

theorem advance_past (h : (stage.advance m env).2.Past) : stage.Past ∨ m.IsODown := by
  cases stage with
  | isODown | canFailover =>
    rw [advance] at h
    split at h <;> cases h
  | recordFailover | returned => cases h
  | autoIsODown =>
    by_cases hodown : m.IsODown
    · exact .inr hodown
    · rw [advance, if_neg hodown] at h
      cases h
  | _ => exact .inl trivial

theorem advance_down (h : (stage.advance m env).2.Down) : stage.Down ∨ m.IsDown := by
  cases stage with
  | isODown | canFailover | autoIsODown | autoGetState =>
    rw [advance] at h
    split at h <;> cases h
  | recordFailover | returned => cases h
  | isDown auto =>
    by_cases hdown : m.IsDown
    · exact .inr hdown
    · rw [advance, if_neg hdown] at h
      cases h
  | _ => exact .inl trivial

end Stage

namespace Node

variable {k : Nat} {n : Node ι} {stage : Stage}

theorem mem_set_threads {next : Stage} :
    ∀ stage ∈ n.threads.set k next, stage ∈ n.threads ∨ stage = next :=
  fun _ hmem => mem_or_eq_of_mem_set hmem

theorem committed_advance (hk : n.threads[k]? = some stage)
    (env : Env)
    (h : Committed { n with
      master := (stage.advance n.master env).1, threads := n.threads.set k (stage.advance n.master env).2 }) :
    n.Committed ∨ n.master.quorum ≤ n.master.sdownReporters.length := by
  have hmem := mem_of_getElem? hk
  -- a stage that is past the check makes the sentinel committed before
  have hpast : stage.Past → n.Committed := fun hpast => .inr ⟨stage, hmem, hpast⟩
  rcases h with hst | ⟨next, hnext, hlater⟩
  · rcases stage.advance_state n.master env with hsame | hdown
    · dsimp only at hst
      rw [hsame] at hst
      exact .inl (.inl hst)
    · exact .inl (hpast (Stage.past_of_down hdown))
  · rcases mem_set_threads next hnext with hold | rfl
    · exact .inl (.inr ⟨next, hold, hlater⟩)
    · rcases stage.advance_past n.master env hlater with hpast' | hodown | hcount
      · exact .inl (hpast hpast')
      · exact .inl (.inl hodown)
      · exact .inr hcount

theorem sawDown_advance (hk : n.threads[k]? = some stage)
    (env : Env)
    (h : SawDown { n with
      master := (stage.advance n.master env).1, threads := n.threads.set k (stage.advance n.master env).2 }) :
    n.SawDown := by
  have hmem := mem_of_getElem? hk
  have hsaw : stage.Down → n.SawDown := fun hdown => .inr ⟨stage, hmem, hdown⟩
  rcases h with hst | ⟨next, hnext, hlater⟩
  · rcases stage.advance_state n.master env with hsame | hdown
    · dsimp only at hst
      rw [hsame] at hst
      exact .inl hst
    · exact hsaw hdown
  · rcases mem_set_threads next hnext with hold | rfl
    · exact .inr ⟨next, hold, hlater⟩
    · rcases stage.advance_down n.master env hlater with hdown | hdown
      · exact hsaw hdown
      · refine .inl fun hok => ?_
        rw [MasterInstance.IsDown, hok] at hdown
        simp at hdown

/-- A goroutine goes on; the end of a failover makes the reports old. -/
theorem Sound.advance {latest : ι → Option Bytes} {moved moved' : Bool} {i : ι}
    (h : Sound latest moved i n) (hk : n.threads[k]? = some stage) (env : Env)
    (hmoved : moved' = false → moved = false ∧ ∀ slave, stage ≠ .updateConfiguration slave) :
    Sound latest moved' i { n with
      master := (stage.advance n.master env).1
      threads := n.threads.set k (stage.advance n.master env).2 } := by
  obtain ⟨hreporters, hquorum⟩ := stage.advance_reporters n.master env
  apply h.grow hquorum
  · dsimp only
    rw [hreporters]
    exact fun _ hs => hs
  · dsimp only
    rw [hreporters]
    exact h.nodup
  · intro hmoved'
    obtain ⟨hold, hstage⟩ := hmoved hmoved'
    rw [hreporters, stage.advance_addr n.master env hstage]
    exact h.fresh hold
  · intro hmoved'
    obtain ⟨hold, hstage⟩ := hmoved hmoved'
    rw [stage.advance_addr n.master env hstage]
    exact h.pinged hold
  · intro hcom
    rw [hreporters, hquorum]
    exact committed_advance hk env hcom
  · intro hsaw
    exact .inl (sawDown_advance hk env hsaw)

end Node

/-! ## All sentinels -/

namespace Watch

def Inv (g : Watch ι) : Prop := ∀ i, (g.world.node i).Sound g.latest (g.moved i) i

theorem inv_start (addr : Bytes) (quorum downAfter : ι → Int) (now : Int) :
    Inv (start addr quorum downAfter now) := by
  intro i
  refine ⟨nodup_nil, ?_, ?_, ?_, ?_⟩
  · exact fun _ _ => nofun
  · exact fun _ _ _ => nofun
  · rintro ((hst | hst) | ⟨_, hmem, -⟩)
    · cases hst
    · cases hst
    · cases hmem
  · rintro (hst | ⟨_, hmem, -⟩)
    · exact absurd rfl hst
    · cases hmem

variable {now : Int} {g : Watch ι} {w : World ι} {i : ι}

section Steps

variable [DecidableEq ι] (h : Inv g)

include h

/-- One sentinel changes; for the others the reports they count stay true. -/
theorem Inv.update {n : Node ι} {latest : ι → Option Bytes} {moved : ι → Bool}
    (hw : w.node = Function.update g.world.node i n) (hn : n.Sound latest (moved i) i)
    (hmoved : ∀ j, j ≠ i → moved j = g.moved j)
    (hfresh : ∀ j, j ≠ i → moved j = false → ∀ s ∈ (g.master j).sdownReporters, latest s = g.latest s) :
    Inv ⟨w, latest, moved⟩ := by
  intro j
  dsimp only
  by_cases hj : j = i
  · subst hj
    rw [hw, update_self]
    exact hn
  · rw [hw, update_of_ne hj]
    have hold := h j
    refine ⟨hold.nodup, ?_, ?_, hold.counted, hold.own⟩
    · intro hm s hs
      rw [hfresh j hj hm s hs]
      rw [hmoved j hj] at hm
      exact hold.fresh hm s hs
    · intro hm
      rw [hmoved j hj] at hm
      exact hold.pinged hm

/-- One sentinel changes, and nothing is reported. -/
theorem Inv.local {n : Node ι} (hw : w.node = Function.update g.world.node i n)
    (hn : n.Sound g.latest (g.moved i) i) : Inv ⟨w, g.latest, g.moved⟩ :=
  h.update hw hn (fun _ _ => rfl) fun _ _ _ _ _ => rfl

variable {g' : Watch ι}

theorem inv_readMaster (hstep : g.step (.readMaster i) = some g') : Inv g' := by
  obtain ⟨w, hw, rfl⟩ := map_eq_some_iff.mp hstep
  rw [World.step] at hw
  split at hw
  · cases hw
    apply h.local rfl
    refine (h i).keep rfl rfl rfl ?_ .inl .inl
    intro addr last hcheck
    cases hcheck
    exact .inr rfl
  · cases hw

/-- The master answers a sentinel that had it down. -/
theorem inv_recovery (hcond : Condition g (.checkMaster i true now))
    (hdown : (g.master i).state = .sdown) {m : MasterInstance ι}
    (hm : m.state = .ok ∧ m.sdownReporters = [])
    (hw : w.node = Function.update g.world.node i { g.world.node i with master := m, check := .idle }) :
    Inv ⟨w, Function.update g.latest i none, Function.update g.moved i false⟩ := by
  obtain ⟨hothers, hthreads⟩ := hcond hdown
  obtain ⟨hstate, hreporters⟩ := hm
  apply h.update hw
  · refine ⟨?_, ?_, ?_, ?_, ?_⟩
    · dsimp only
      rw [hreporters]
      exact nodup_nil
    · intro _ s hs
      rw [hreporters] at hs
      cases hs
    · exact fun _ _ _ => nofun
    · -- no goroutine is past the check, and the state is back to normal
      rintro ((hst | hst) | ⟨stage, hmem, hpast⟩)
      · exact absurd (hstate.symm.trans hst) (by decide)
      · exact absurd (hstate.symm.trans hst) (by decide)
      · exact absurd hpast (hthreads stage hmem)
    · rintro (hst | ⟨stage, hmem, hseen⟩)
      · exact absurd hstate hst
      · exact absurd (Stage.past_of_down hseen) (hthreads stage hmem)
  · intro j hj
    exact update_of_ne hj _ _
  · intro j hj hmoved s hs
    apply update_of_ne
    rintro rfl
    rw [update_of_ne hj] at hmoved
    rcases hothers j hj with hold | hout
    · rw [hmoved] at hold
      cases hold
    · exact hout hs

/-- A sentinel finds the master down. -/
theorem inv_detection
    (hcond : Condition g (.checkMaster i false now)) (hdetects : (g.master i).Detects now) {addr : Bytes}
    {last : Option Int} (hcheck : (g.world.node i).check = .pinging addr last) {trigger : Bool}
    (hw : w.node = Function.update g.world.node i { g.world.node i with
      master := { (g.master i).reportSdown i with state := .sdown }
      check := .broadcasting trigger last }) :
    Inv ⟨w, Function.update g.latest i (some addr), g.moved⟩ := by
  have hold := h i
  apply h.update hw
  · refine hold.grow rfl ?_ ?_ ?_ ?_ ?_ ?_
    · exact fun _ hs => mem_insert_of_mem hs
    · exact hold.nodup.insert
    · intro hmoved s hs
      by_cases hsi : s = i
      · subst hsi
        rw [update_self, hold.pinged hmoved addr last hcheck]
        rfl
      · rw [update_of_ne hsi]
        exact hold.fresh hmoved s ((List.mem_insert_iff.mp hs).resolve_left hsi)
    · intro _ addr' last' hcheck'
      cases hcheck'
    · rintro ((hst | hst) | hthread)
      · cases hst
      · cases hst
      · exact .inl (.inr hthread)
    · intro _
      exact .inr mem_insert_self
  · exact fun _ _ => rfl
  · intro j hj hmoved s hs
    by_cases hsi : s = i
    · subst hsi
      rcases hcond hdetects j hj with hm | hout | haddr
      · rw [hmoved] at hm
        cases hm
      · exact absurd hs hout
      · rw [hcheck] at haddr
        rw [update_self, (h j).fresh hmoved s hs]
        exact haddr
    · exact update_of_ne hsi _ _

theorem inv_checkMaster {answered : Bool} (hcond : Condition g (.checkMaster i answered now))
    (hstep : g.step (.checkMaster i answered now) = some g') : Inv g' := by
  obtain ⟨w, hw, rfl⟩ := map_eq_some_iff.mp hstep
  rw [World.step] at hw
  cases hcheck : (g.world.node i).check with
  | pinging addr last =>
    rw [hcheck] at hw
    cases answered with
    | true =>
      by_cases hdown : (g.master i).state = .sdown
      · have hlatest : g.latestAfter (.checkMaster i true now) = Function.update g.latest i none := by
          simp [latestAfter, hcheck, hdown]
        have hmoved : g.movedAfter (.checkMaster i true now) = Function.update g.moved i false := by
          simp [movedAfter, hdown]
        rw [hlatest, hmoved]
        rw [master] at hdown
        simp only [MasterInstance.checkMaster, if_true, hdown] at hw
        cases hw
        exact inv_recovery h hcond hdown ⟨rfl, rfl⟩ rfl
      · have hlatest : g.latestAfter (.checkMaster i true now) = g.latest := by
          simp [latestAfter, hcheck, hdown]
        have hmoved : g.movedAfter (.checkMaster i true now) = g.moved := by
          simp [movedAfter, hdown]
        rw [hlatest, hmoved]
        rw [master] at hdown
        simp only [MasterInstance.checkMaster, if_true, hdown, if_false] at hw
        cases hw
        apply h.local rfl
        refine (h i).keep rfl rfl rfl ?_ .inl .inl
        intro addr' last' hcheck'
        cases hcheck'
    | false =>
      by_cases hdetects : (g.master i).Detects now
      · have hlatest : g.latestAfter (.checkMaster i false now) =
            Function.update g.latest i (some addr) := by
          simp [latestAfter, hcheck, hdetects]
        rw [hlatest]
        rw [master] at hdetects
        simp only [MasterInstance.checkMaster, Bool.false_eq_true, if_false, hdetects, if_true] at hw
        cases hw
        exact inv_detection h hcond hdetects hcheck rfl
      · have hlatest : g.latestAfter (.checkMaster i false now) = g.latest := by
          simp [latestAfter, hcheck, hdetects]
        rw [hlatest]
        rw [master] at hdetects
        simp only [MasterInstance.checkMaster, Bool.false_eq_true, if_false, hdetects] at hw
        cases hw
        apply h.local rfl
        refine (h i).keep rfl rfl rfl ?_ .inl .inl
        intro addr' last' hcheck'
        cases hcheck'
  | idle =>
    rw [hcheck] at hw
    cases hw
  | broadcasting trigger last =>
    rw [hcheck] at hw
    cases hw
  | triggering last =>
    rw [hcheck] at hw
    cases hw

theorem inv_broadcastSdown {peers : List ι} (hstep : g.step (.broadcastSdown i peers) = some g') :
    Inv g' := by
  obtain ⟨w, hw, rfl⟩ := map_eq_some_iff.mp hstep
  rw [World.step] at hw
  cases hcheck : (g.world.node i).check with
  | broadcasting trigger last =>
    rw [hcheck] at hw
    cases hw
    apply h.local rfl
    refine (h i).keep rfl rfl rfl ?_ .inl .inl
    intro addr last' hcheck'
    cases trigger <;> cases hcheck'
  | _ =>
    rw [hcheck] at hw
    cases hw

theorem inv_trigger (hstep : g.step (.trigger i now) = some g') : Inv g' := by
  obtain ⟨w, hw, rfl⟩ := map_eq_some_iff.mp hstep
  rw [World.step] at hw
  cases hcheck : (g.world.node i).check with
  | triggering last =>
    rw [hcheck] at hw
    dsimp only at hw
    split at hw
    · cases hw
      apply h.local rfl
      refine (h i).keep rfl rfl rfl ?_ ?_ ?_
      · intro addr last' hcheck'
        cases hcheck'
      · intro hcom
        exact .inl (Node.committed_spawn hcom rfl id)
      · intro hsaw
        exact .inl (Node.sawDown_spawn hsaw rfl id)
    · cases hw
      apply h.local rfl
      refine (h i).keep rfl rfl rfl ?_ .inl .inl
      intro addr last' hcheck'
      cases hcheck'
  | _ =>
    rw [hcheck] at hw
    cases hw

theorem inv_handleSdown {n : Nat} (hcond : Condition g (.handleSdown n))
    (hstep : g.step (.handleSdown n) = some g') : Inv g' := by
  obtain ⟨w, hw, rfl⟩ := map_eq_some_iff.mp hstep
  rw [World.step] at hw
  cases hp : g.world.wire[n]? with
  | none =>
    rw [hp] at hw
    cases hw
  | some p =>
    rw [hp] at hw
    cases hw
    have hold := h p.receiver
    refine h.local (i := p.receiver) rfl (hold.grow rfl ?_ ?_ ?_ ?_ ?_ ?_)
    · exact fun _ hs => mem_insert_of_mem hs
    · exact hold.nodup.insert
    · intro hmoved s hs
      rcases List.mem_insert_iff.mp hs with rfl | hs
      · rcases hcond p hp with hm | hlatest
        · rw [hmoved] at hm
          cases hm
        · exact hlatest
      · exact hold.fresh hmoved s hs
    · exact hold.pinged
    · intro hcom
      exact .inl (Node.committed_spawn hcom rfl id)
    · intro hsaw
      exact .inl (Node.sawDown_spawn hsaw rfl id)

theorem inv_command (hcond : Condition g (.command i)) (hstep : g.step (.command i) = some g') :
    Inv g' := by
  obtain ⟨w, hw, rfl⟩ := map_eq_some_iff.mp hstep
  cases hw
  apply h.local rfl
  refine (h i).keep rfl rfl rfl (fun _ _ hcheck => .inl hcheck) ?_ ?_
  · intro _
    exact .inr hcond
  · intro hsaw
    exact .inl (Node.sawDown_spawn hsaw rfl id)

theorem inv_advance {k : Nat} {env : Env} (hstep : g.step (.advance i k env) = some g') : Inv g' := by
  obtain ⟨w, hw, rfl⟩ := map_eq_some_iff.mp hstep
  rw [World.step] at hw
  cases hk : (g.world.node i).threads[k]? with
  | none =>
    rw [hk] at hw
    cases hw
  | some stage =>
    rw [hk] at hw
    dsimp only at hw
    split at hw
    · cases hw
    · cases hw
      refine h.update (i := i) rfl ((h i).advance hk env ?_) ?_ fun _ _ _ _ _ => rfl
      · -- the end of a failover marks the reports as old
        intro hmoved
        rw [movedAfter, hk] at hmoved
        cases stage with
        | updateConfiguration slave =>
          dsimp only at hmoved
          rw [update_self] at hmoved
          cases hmoved
        | _ => exact ⟨hmoved, fun _ => nofun⟩
      · intro j hj
        rw [movedAfter, hk]
        cases stage with
        | updateConfiguration slave => exact update_of_ne hj _ _
        | _ => rfl

theorem inv_step {a : Act ι} (hcond : Condition g a) (hstep : g.step a = some g') : Inv g' := by
  cases a with
  | readMaster i => exact inv_readMaster h hstep
  | checkMaster i answered now => exact inv_checkMaster h hcond hstep
  | broadcastSdown i peers => exact inv_broadcastSdown h hstep
  | trigger i now => exact inv_trigger h hstep
  | handleSdown n => exact inv_handleSdown h hcond hstep
  | lose n =>
    obtain ⟨w, hw, rfl⟩ := map_eq_some_iff.mp hstep
    rw [World.step] at hw
    split at hw
    · cases hw
      exact h
    · cases hw
  | command i => exact inv_command h hcond hstep
  | slaves i slaves =>
    obtain ⟨w, hw, rfl⟩ := map_eq_some_iff.mp hstep
    cases hw
    exact h.local rfl ((h i).keep rfl rfl rfl (fun _ _ hcheck => .inl hcheck) .inl .inl)
  | advance i k env => exact inv_advance h hstep

omit [DecidableEq ι] in
theorem evidence_of_inv {k : Nat} (hk : (g.world.node i).threads[k]? = some (.setState true))
    (hmoved : g.moved i = false) : g.Evidence i := by
  have hi := h i
  have hmem := mem_of_getElem? hk
  have hcount := hi.counted (.inr ⟨_, hmem, trivial⟩)
  have hself := hi.own (.inr ⟨_, hmem, trivial⟩)
  exact ⟨(g.master i).sdownReporters, hi.nodup, hself, hcount, hi.fresh hmoved⟩

end Steps

/-- Nobody else holds the address down. -/
theorem not_evidence (hquorum : 2 ≤ (g.master i).quorum)
    (hlatest : ∀ j, g.latest j = some (g.master i).addr → j = i) : ¬ g.Evidence i := by
  rintro ⟨holders, hnodup, -, hcount, hall⟩
  have hsub : holders ⊆ [i] := by
    intro j hj
    rw [hlatest j (hall j hj)]
    exact mem_singleton_self i
  have hlen := (hnodup.subperm hsub).length_le
  rw [length_singleton] at hlen
  omega

end Watch

variable [DecidableEq ι]

instance [Fintype ι] (g : Watch ι) (a : Act ι) : Decidable (Condition g a) := by
  unfold Condition
  split <;> infer_instance

/-- **The evidence for a failover**: whatever pings, reports, recoveries and failovers the sentinels go
through under the condition, one that starts an automatic failover has at least `quorum` sentinels, itself
among them, whose last report says that the address it has for the master is down. -/
theorem failover_needs_current_quorum (addr : Bytes) (quorum downAfter : ι → Int) (now : Int)
    (as : List (Act ι)) (g : Watch ι) (i : ι) (k : Nat) (env : Env)
    (hok : Meets Watch.step Condition (.start addr quorum downAfter now) (as ++ [.advance i k env]))
    (hrun : run Watch.step (.start addr quorum downAfter now) as = some g)
    (hstart : (g.world.node i).threads[k]? = some (.setState true)) : g.Evidence i := by
  obtain ⟨hbefore, hlast⟩ := (meets_append hrun).mp hok
  have hinv : g.Inv := run_invariant (fun _ _ _ h hc hs => Watch.inv_step h hc hs)
    (Watch.inv_start addr quorum downAfter now) hbefore hrun
  exact Watch.evidence_of_inv hinv hstart (hlast.1 hstart)

/-- Two sentinels of quorum two, watching the address 1; the second detects, and so does the first. -/
def bothDetect : List (Act Bool) :=
  [.readMaster true, .checkMaster true false 100, .broadcastSdown true [false], .handleSdown 1,
    .readMaster false, .checkMaster false false 100, .broadcastSdown false [], .trigger false 100,
    .advance false 1 ⟨100, fun _ => true, .ok⟩, .advance false 1 ⟨100, fun _ => true, .ok⟩,
    .advance false 1 ⟨100, fun _ => true, .ok⟩, .advance false 1 ⟨100, fun _ => true, .ok⟩]

theorem failover_needs_current_quorum_bothDetect :
    ∃ g : Watch Bool, run Watch.step (.start [1] (fun _ => 2) (fun _ => 30) 0) bothDetect = some g ∧
      (g.world.node false).threads[1]? = some (.setState true) ∧ g.Evidence false := by
  obtain ⟨g, hrun, hstart⟩ : ∃ g : Watch Bool,
      run Watch.step (.start [1] (fun _ => 2) (fun _ => 30) 0) bothDetect = some g ∧
        (g.world.node false).threads[1]? = some (.setState true) := run_end (by decide +kernel)
  exact ⟨g, hrun, hstart, failover_needs_current_quorum [1] (fun _ => 2) (fun _ => 30) 0 bothDetect g false 1
    ⟨100, fun _ => true, .ok⟩ (by decide +kernel) hrun hstart⟩

/-- The second sentinel finds the master again before the first one detects. -/
def secondRecovers : List (Act Bool) :=
  [.readMaster true, .checkMaster true false 100, .broadcastSdown true [false], .handleSdown 1,
    .readMaster true, .checkMaster true true 101,
    .readMaster false, .checkMaster false false 200, .broadcastSdown false [], .trigger false 200,
    .advance false 1 ⟨200, fun _ => true, .ok⟩, .advance false 1 ⟨200, fun _ => true, .ok⟩,
    .advance false 1 ⟨200, fun _ => true, .ok⟩, .advance false 1 ⟨200, fun _ => true, .ok⟩]

/-- The first one still counts the report. -/
theorem withdrawn_sdown_counts :
    ∃ g : Watch Bool, run Watch.step (.start [1] (fun _ => 2) (fun _ => 30) 0) secondRecovers = some g ∧
      (g.world.node false).threads[1]? = some (.setState true) ∧ ¬ g.Evidence false := by
  obtain ⟨g, hrun, hstart, hquorum, hlatest⟩ : ∃ g : Watch Bool,
      run Watch.step (.start [1] (fun _ => 2) (fun _ => 30) 0) secondRecovers = some g ∧
        ((g.world.node false).threads[1]? = some (.setState true) ∧ 2 ≤ (g.master false).quorum ∧
          ∀ j, g.latest j = some (g.master false).addr → j = false) := run_end (by decide +kernel)
  exact ⟨g, hrun, hstart, Watch.not_evidence hquorum hlatest⟩

end BoltDB.Sentinel
