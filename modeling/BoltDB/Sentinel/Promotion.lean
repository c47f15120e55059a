import BoltDB.Sentinel.Evidence

/-!
# How many replicas an outage promotes

Every sentinel that has counted enough reports promotes a replica of its own choice. The check for a failover
under way reads the state of the sentinel itself, so it holds back the goroutines of this sentinel and no
others; it is made after the check that the master is down and before the state is set, so two goroutines may
still pass it one after the other. `Outage` keeps the replicas promoted until all sentinels have the address
of one of them.

* `Stage.Holding` — the goroutine has passed both checks and has not yet given up or set the new address.
* `Condition` — one sentinel counts the quorum, and its goroutines do not overtake each other.
* `one_promotion_per_outage` — then an outage promotes at most one replica.
* `selectNewMaster_maximal` — a choice is of the largest offset among those that are online and answer.
-/

namespace BoltDB.Sentinel

open Bytes Transition List

/-- The goroutine has found no failover under way, and has not ended its own. -/
def Stage.Holding : Stage → Prop
  | .setState _ | .selectNewMaster | .executeFailover _ | .updateConfiguration _ | .fail => True
  | _ => False

/-! ## The choice of a replica -/

/-- A round brings a candidate with the largest offset to the front. -/
theorem settle_spec (front : Slave) (l : List Slave) :
    ((settle front l).1 :: (settle front l).2) ~ front :: l ∧
      ∀ s ∈ front :: l, s.offset ≤ (settle front l).1.offset := by
  induction l generalizing front with
  | nil => simp [settle]
  | cons s rest ih =>
    rw [settle]
    split
    · next hahead =>
      obtain ⟨hperm, hmax⟩ := ih s
      refine ⟨(Perm.swap _ _ _).trans (hperm.cons front), forall_mem_cons.mpr ⟨?_, hmax⟩⟩
      exact (le_of_lt hahead).trans (hmax s mem_cons_self)
    · next hbehind =>
      obtain ⟨hperm, hmax⟩ := ih front
      have hfront := hmax front mem_cons_self
      refine ⟨((Perm.swap _ _ _).trans (hperm.cons s)).trans (Perm.swap _ _ _), ?_⟩
      simp only [forall_mem_cons] at hmax ⊢
      exact ⟨hfront, (not_lt.mp hbehind).trans hfront, hmax.2⟩

theorem byOffset_spec {n : Nat} {l : List Slave} (h : l.length ≤ n) :
    byOffset n l ~ l ∧ (byOffset n l).Pairwise fun s s' => s'.offset ≤ s.offset := by
  induction n generalizing l with
  | zero =>
    obtain rfl := length_eq_zero_iff.mp (Nat.le_zero.mp h)
    exact ⟨.refl _, .nil⟩
  | succ n ih =>
    cases l with
    | nil => exact ⟨.refl _, .nil⟩
    | cons s rest =>
      obtain ⟨hperm, hmax⟩ := settle_spec s rest
      have hlen := hperm.length_eq
      simp only [length_cons] at h hlen
      obtain ⟨hrest, hsorted⟩ := ih (l := (settle s rest).2) (by omega)
      refine ⟨(hrest.cons _).trans hperm, hsorted.cons fun s' hs' => ?_⟩
      exact hmax s' (hperm.subset (mem_cons_of_mem _ (hrest.subset hs')))

/-- The choice is of the largest offset among the replicas that are online and answer. -/
theorem selectNewMaster_maximal {ι : Type} (m : MasterInstance ι) (answers : Bytes → Bool) :
    (m.selectNewMaster answers = none ↔ ∀ s ∈ m.slaves, s.online = true → answers s.addr = false) ∧
      ∀ best, m.selectNewMaster answers = some best →
        best ∈ m.slaves ∧ best.online = true ∧ answers best.addr = true ∧
          ∀ s ∈ m.slaves, s.online = true → answers s.addr = true → s.offset ≤ best.offset := by
  obtain ⟨hperm, hsorted⟩ := byOffset_spec (le_refl (m.slaves.filter (·.online)).length)
  have hmem : ∀ s, s ∈ byOffset (m.slaves.filter (·.online)).length (m.slaves.filter (·.online)) ↔
      s ∈ m.slaves ∧ s.online = true := fun s => hperm.mem_iff.trans mem_filter
  refine ⟨?_, fun best hbest => ?_⟩
  · simp only [MasterInstance.selectNewMaster, find?_eq_none, hmem, Bool.not_eq_true, and_imp]
  · obtain ⟨hanswers, before, behind, hl, hnone⟩ := find?_eq_some_iff_append.mp hbest
    obtain ⟨hin, honline⟩ := (hmem best).mp (hl ▸ by simp)
    refine ⟨hin, honline, hanswers, fun s hs hon hans => ?_⟩
    have hs := (hmem s).mpr ⟨hs, hon⟩
    rw [hl] at hs hsorted
    rcases mem_append.mp hs with hs | hs
    · have := hnone s hs
      simp [hans] at this
    · rcases mem_cons.mp hs with rfl | hs
      · exact le_refl _
      · exact rel_of_pairwise_cons (pairwise_append.mp hsorted).2.1 hs

/-! ## One step of a goroutine -/

section Stages

variable {ι : Type} {env : Env} {m : MasterInstance ι} {stage : Stage}

/-- A goroutine that holds the failover held it before, or has just passed the check of the state. -/
theorem Stage.holding_of_advance (h : (stage.advance m env).2.Holding) :
    stage.Holding ∨ (∃ auto, stage = .getState auto) ∧ m.state ≠ .failover := by
  cases stage with
  | setState | selectNewMaster | executeFailover | updateConfiguration | fail => exact .inl trivial
  | recordFailover | returned => cases h
  | getState auto =>
    rw [advance] at h
    split at h
    · cases h
    · next hstate => exact .inr ⟨⟨auto, rfl⟩, hstate⟩
  | _ =>
    rw [advance] at h
    split at h <;> cases h

/-- Only a goroutine that holds the failover changes the state. -/
theorem Stage.state_advance (h : ¬ stage.Holding) : (stage.advance m env).1.state = m.state := by
  cases stage with
  | setState | selectNewMaster | executeFailover | updateConfiguration | fail => exact absurd trivial h
  | _ => rfl

/-- Up to the new address or the failure, the state is that of a failover. -/
theorem Stage.failover_advance (h : stage.Holding)
    (hstate : (∀ auto, stage ≠ .setState auto) → m.state = .failover)
    (hnext : (stage.advance m env).2.Holding) :
    (stage.advance m env).1.state = .failover ∧ ∀ auto, (stage.advance m env).2 ≠ .setState auto := by
  cases stage with
  | setState auto => exact ⟨rfl, fun _ => by simp [advance]⟩
  | selectNewMaster =>
    rw [advance] at hnext ⊢
    cases m.selectNewMaster env.answers with
    | none => exact ⟨hstate fun _ => by simp, fun _ => by simp⟩
    | some slave => exact ⟨hstate fun _ => by simp, fun _ => by simp⟩
  | executeFailover slave =>
    refine ⟨hstate fun _ => by simp, fun auto heq => ?_⟩
    rw [advance] at heq
    split at heq <;> cases heq
  | updateConfiguration | fail => cases hnext
  | _ => cases h

/-- A goroutine that has not passed `AutoFailover`'s count does not pass it now. -/
theorem Stage.not_past_advance (h : ¬ stage.Past) (hcount : stage = .autoIsODown → ¬ m.IsODown) :
    ¬ (stage.advance m env).2.Past := by
  cases stage with
  | isODown | canFailover =>
    rw [advance]
    split <;> exact id
  | recordFailover | returned => exact id
  | autoIsODown =>
    rw [advance, if_neg (hcount rfl)]
    exact id
  | _ => exact absurd trivial h

theorem MasterInstance.checkMaster_of_failover [DecidableEq ι] (h : m.state = .failover) (self : ι)
    (answered : Bool) (now : Int) : (m.checkMaster self answered now).1.state = .failover := by
  have hdetects : ¬ m.Detects now := fun hdetects => by
    rw [hdetects.1] at h
    cases h
  cases answered with
  | true => simp [MasterInstance.checkMaster, h]
  | false => simp [MasterInstance.checkMaster, hdetects, h]

theorem MasterInstance.checkMaster_of_ok [DecidableEq ι] (h : m.state = .ok) (self : ι) {answered : Bool}
    {now : Int} (hok : answered = true ∨ ¬ m.Detects now) :
    (m.checkMaster self answered now).1.state = .ok := by
  cases answered with
  | true => simp [MasterInstance.checkMaster, h]
  | false => simp [MasterInstance.checkMaster, hok.resolve_left Bool.false_ne_true, h]

end Stages

/-! ## One step of all sentinels -/

namespace World

variable {ι : Type} [DecidableEq ι] {n : Node ι} {stage : Stage} {w : World ι}

/-- The goroutine's own step: it comes to its next stage, and all others stay where they are. -/
theorem step_advance {w' : World ι} {i : ι} {k : Nat} {env : Env}
    (h : w.step (.advance i k env) = some w') : ∃ before, (w.node i).threads[k]? = some before ∧
      (w'.node i).master = (before.advance (w.node i).master env).1 ∧
      (∀ (l : Nat) (stage : Stage), (w'.node i).threads[l]? = some stage →
        l = k ∧ stage = (before.advance (w.node i).master env).2 ∨
          l ≠ k ∧ (w.node i).threads[l]? = some stage) ∧
      ∀ j, j ≠ i → w'.node j = w.node j := by
  rw [step] at h
  cases hk : (w.node i).threads[k]? with
  | none =>
    rw [hk] at h
    cases h
  | some before =>
    rw [hk] at h
    dsimp only at h
    split at h
    · cases h
    · cases h
      refine ⟨before, rfl, by simp [setNode], fun l stage hl => ?_, fun j hj => by simp [setNode, hj]⟩
      have hset : ((w.node i).threads.set k (before.advance (w.node i).master env).2)[l]? =
          some stage := by
        simpa [setNode] using hl
      by_cases heq : l = k
      · subst heq
        rw [getElem?_set_self (List.getElem?_eq_some_iff.mp hk).1] at hset
        exact .inl ⟨rfl, (Option.some.inj hset).symm⟩
      · rw [getElem?_set_ne fun he => heq he.symm] at hset
        exact .inr ⟨heq, hset⟩

/-- No goroutine of the other sentinels is past the count of `AutoFailover`. -/
def OthersBehind (w : World ι) (leader : ι) : Prop :=
  ∀ j, j ≠ leader → ∀ (k : Nat) (stage : Stage), (w.node j).threads[k]? = some stage → ¬ stage.Past

/-- A step in which no goroutine of sentinel `j` goes on. A goroutine was there before, or it is new, and
only an operator's command starts one that need not pass `AutoFailover`; only the check of the master changes
the state. -/
structure Aside (w w' : World ι) (a : Act ι) (j : ι) : Prop where
  threads : ∀ (l : Nat) (stage : Stage), (w'.node j).threads[l]? = some stage →
    (w.node j).threads[l]? = some stage ∨ ¬ stage.Holding ∧ (stage.Past → a = .command j)
  state : (w'.node j).master.state = (w.node j).master.state ∨
    ∃ answered now, a = .checkMaster j answered now ∧
      (w'.node j).master = ((w.node j).master.checkMaster j answered now).1

/-- A sentinel other than the one whose step it is. -/
theorem aside_of_ne {w' : World ι} {a : Act ι} {i j : ι} (hnode : w'.node = Function.update w.node i n)
    (hj : j ≠ i) : Aside w w' a j := by
  have hsame : w'.node j = w.node j := by rw [hnode, Function.update_of_ne hj]
  exact ⟨fun l stage h => .inl (hsame ▸ h), .inl (by rw [hsame])⟩

/-- A step that changes neither the goroutines nor the state. -/
theorem aside_kept {w' : World ι} {a : Act ι} {i : ι} (j : ι)
    (hnode : w'.node = Function.update w.node i n) (hthreads : n.threads = (w.node i).threads)
    (hstate : n.master.state = (w.node i).master.state) : Aside w w' a j := by
  by_cases hj : j = i
  · subst hj
    have hself : w'.node j = n := by rw [hnode, Function.update_self]
    refine ⟨fun l stage h => .inl ?_, .inl (by rw [hself, hstate])⟩
    rwa [hself, hthreads] at h
  · exact aside_of_ne hnode hj

/-- A step that starts a goroutine behind the others. -/
theorem aside_spawn {w' : World ι} {a : Act ι} {i : ι} {new : Stage} (j : ι)
    (hnode : w'.node = Function.update w.node i n) (hthreads : n.threads = (w.node i).threads ++ [new])
    (hstate : n.master.state = (w.node i).master.state) (hholds : ¬ new.Holding)
    (hpast : new.Past → a = .command i) : Aside w w' a j := by
  by_cases hj : j = i
  · subst hj
    have hself : w'.node j = n := by rw [hnode, Function.update_self]
    refine ⟨fun l stage h => ?_, .inl (by rw [hself, hstate])⟩
    rw [hself, hthreads] at h
    by_cases hl : l < (w.node j).threads.length
    · rw [getElem?_append_left hl] at h
      exact .inl h
    · rw [getElem?_append_right (Nat.le_of_not_lt hl)] at h
      rw [mem_singleton.mp (mem_of_getElem? h)]
      exact .inr ⟨hholds, hpast⟩
  · exact aside_of_ne hnode hj

theorem aside_of_step {w' : World ι} {a : Act ι} (hstep : w.step a = some w') {j : ι}
    (hown : ∀ k env, a ≠ .advance j k env) : Aside w w' a j := by
  cases a with
  | readMaster i =>
    rw [step] at hstep
    split at hstep
    · cases hstep
      exact aside_kept j rfl rfl rfl
    · cases hstep
  | checkMaster i answered now =>
    rw [step] at hstep
    split at hstep
    · cases hstep
      by_cases hj : j = i
      · subst hj
        refine ⟨fun l stage h => .inl ?_, .inr ⟨answered, now, rfl, ?_⟩⟩
        · simpa [setNode] using h
        · simp only [setNode, Function.update_self]
          rfl
      · exact aside_of_ne rfl hj
    · cases hstep
  | broadcastSdown i peers =>
    rw [step] at hstep
    split at hstep
    · cases hstep
      exact aside_kept j rfl rfl rfl
    · cases hstep
  | trigger i now =>
    rw [step] at hstep
    split at hstep
    · split at hstep
      · cases hstep
        exact aside_spawn j rfl rfl rfl id False.elim
      · cases hstep
        exact aside_kept j rfl rfl rfl
    · cases hstep
  | handleSdown n =>
    rw [step] at hstep
    split at hstep
    · cases hstep
    · cases hstep
      exact aside_spawn j rfl rfl rfl id False.elim
  | lose n =>
    rw [step] at hstep
    split at hstep
    · cases hstep
      exact ⟨fun _ _ h => .inl h, .inl rfl⟩
    · cases hstep
  | command i =>
    cases hstep
    exact aside_spawn j rfl rfl rfl id fun _ => rfl
  | slaves i slaves =>
    cases hstep
    exact aside_kept j rfl rfl rfl
  | advance i k env =>
    obtain ⟨before, -, -, -, hother⟩ := step_advance hstep
    have hsame := hother j fun heq => hown k env (heq ▸ rfl)
    exact ⟨fun l stage h => .inl (hsame ▸ h), .inl (by rw [hsame])⟩

end World

/-! ## Outages -/

/-- The sentinels, and the replicas promoted in the outage that is under way or has just ended. -/
structure Outage (ι : Type) where
  world : World ι
  promoted : List Bytes

namespace Outage

variable {ι : Type} [DecidableEq ι] [Fintype ι]

abbrev node (o : Outage ι) (i : ι) : Node ι := o.world.node i

/-- All sentinels have the address of a promoted replica. -/
def Adopted (o : Outage ι) : Prop := ∃ a ∈ o.promoted, ∀ i, (o.node i).master.addr = a

instance (o : Outage ι) : Decidable o.Adopted := inferInstanceAs (Decidable (∃ a ∈ o.promoted, _))

/-- What counts for the next step: an outage ends when the new address is adopted. -/
def current (o : Outage ι) : List Bytes := if o.Adopted then [] else o.promoted

/-- The replica that a step promotes. -/
def promotes (o : Outage ι) : Act ι → List Bytes
  | .advance i k env =>
    match (o.node i).threads[k]? with
    | some (.executeFailover slave) => if env.reply = .refused then [] else [slave.addr]
    | _ => []
  | _ => []

def step (o : Outage ι) (a : Act ι) : Option (Outage ι) :=
  (o.world.step a).map fun w => ⟨w, o.current ++ o.promotes a⟩

def start (addr : Bytes) (quorum downAfter : ι → Int) (now : Int) : Outage ι :=
  ⟨World.start addr quorum downAfter now, []⟩

/-- The condition on a goroutine that goes on. `AutoFailover` counts a quorum at one sentinel only. There
`StartFailover` finds no failover under way only while the master is still down and no other goroutine is
about to set the state, and no answer to `SLAVEOF NO ONE` is lost. -/
def GoesOn (leader : ι) (o : Outage ι) (i : ι) (env : Env) : Stage → Prop
  | .autoIsODown => i = leader ∨ ¬ (o.node i).master.IsODown
  | .getState _ => (o.node i).master.state = .failover ∨
      (o.node i).master.IsDown ∧ ∀ stage ∈ (o.node i).threads, ∀ auto, stage ≠ .setState auto
  | .executeFailover _ => env.reply ≠ .lost
  | _ => True

instance (leader : ι) (o : Outage ι) (i : ι) (env : Env) (stage : Stage) :
    Decidable (GoesOn leader o i env stage) := by
  unfold GoesOn
  split <;> infer_instance

/-- The condition on a step. An operator gives the command to the sentinel that counts the quorum, and this
sentinel does not find the master down again before all have the address of a replica that was promoted. -/
def Condition (leader : ι) (o : Outage ι) : Act ι → Prop
  | .command i => i = leader
  | .checkMaster i answered now =>
    i = leader → o.current ≠ [] → answered = true ∨ ¬ (o.node i).master.Detects now
  | .advance i k env => ∀ stage ∈ (o.node i).threads[k]?, GoesOn leader o i env stage
  | _ => True

instance (leader : ι) (o : Outage ι) : (a : Act ι) → Decidable (Condition leader o a)
  | .command _ => inferInstanceAs (Decidable (_ = _))
  | .checkMaster .. => inferInstanceAs (Decidable (_ = _ → _))
  | .advance .. => inferInstanceAs (Decidable (∀ stage ∈ _, GoesOn leader o _ _ stage))
  | .readMaster _ | .broadcastSdown .. | .trigger .. | .handleSdown _ | .lose _ | .slaves .. =>
    .isTrue trivial

/-- The failover is in the hands of one goroutine of one sentinel. Once a replica is promoted this goroutine
only has the new address to set, and the state lets no other one through. -/
structure Inv (leader : ι) (o : Outage ι) : Prop where
  others : o.world.OthersBehind leader
  single : ∀ (k l : Nat) (stage stage' : Stage), (o.node leader).threads[k]? = some stage → stage.Holding →
    (o.node leader).threads[l]? = some stage' → stage'.Holding → k = l
  state : ∀ (k : Nat) (stage : Stage), (o.node leader).threads[k]? = some stage → stage.Holding →
    (∀ auto, stage ≠ .setState auto) → (o.node leader).master.state = .failover
  short : o.promoted.length ≤ 1
  late : o.current ≠ [] → ((o.node leader).master.state = .ok ∨ (o.node leader).master.state = .failover) ∧
    ∀ (k : Nat) (stage : Stage), (o.node leader).threads[k]? = some stage → stage.Holding →
      ∃ slave, stage = .updateConfiguration slave

omit [DecidableEq ι] in
theorem length_current_le (o : Outage ι) : o.current.length ≤ o.promoted.length := by
  rw [current]
  split
  · exact Nat.zero_le _
  · exact Nat.le_refl _

omit [DecidableEq ι] in
theorem promoted_ne_nil {o : Outage ι} (h : o.current ≠ []) : o.promoted ≠ [] := by
  rw [current] at h
  split at h
  · exact absurd rfl h
  · exact h

variable {a : Act ι} {leader : ι} {o : Outage ι} {w : World ι}

omit [DecidableEq ι] [Fintype ι] in
theorem promotes_eq_nil {i : ι} {k : Nat} {env : Env} {before : Stage}
    (h : (o.node i).threads[k]? = some before) (hnot : ∀ slave, before ≠ .executeFailover slave) :
    o.promotes (.advance i k env) = [] := by
  rw [promotes, h]
  cases before with
  | executeFailover slave => exact absurd rfl (hnot slave)
  | _ => rfl

omit [DecidableEq ι] [Fintype ι] in
theorem length_promotes_le (o : Outage ι) (a : Act ι) : (o.promotes a).length ≤ 1 := by
  cases a with
  | advance i k env =>
    rw [promotes]
    split
    · split <;> simp
    · simp
  | _ => simp [promotes]

omit [DecidableEq ι] in
/-- A step after which the same goroutines hold the failover, and the state of a failover stays, as does
that of a master that is not down once a replica is promoted. -/
theorem inv_keep (h : Inv leader o)
    (hothers : w.OthersBehind leader)
    (hheld : ∀ (k : Nat) (stage : Stage), (w.node leader).threads[k]? = some stage → stage.Holding →
      (o.node leader).threads[k]? = some stage)
    (hstate : ((o.node leader).master.state = .failover → (w.node leader).master.state = .failover) ∧
      (o.current ≠ [] → (o.node leader).master.state = .ok → (w.node leader).master.state = .ok))
    (hpromotes : o.promotes a = []) : Inv leader ⟨w, o.current ++ o.promotes a⟩ := by
  refine ⟨hothers, fun k l stage stage' hk hholds hl hholds' => ?_, fun k stage hk hholds hset => ?_, ?_,
    fun hcurrent => ?_⟩
  · exact h.single k l stage stage' (hheld k stage hk hholds) hholds (hheld l stage' hl hholds') hholds'
  · exact hstate.1 (h.state k stage (hheld k stage hk hholds) hholds hset)
  · rw [hpromotes, append_nil]
    exact (length_current_le o).trans h.short
  · have hsome : o.current ≠ [] := by
      have := promoted_ne_nil hcurrent
      rwa [hpromotes, append_nil] at this
    obtain ⟨hdown, hlate⟩ := h.late hsome
    exact ⟨hdown.imp (hstate.2 hsome) hstate.1,
      fun k stage hk hholds => hlate k stage (hheld k stage hk hholds) hholds⟩

/-- A step in which no goroutine of the leader goes on. -/
theorem inv_other (h : Inv leader o) (hcond : Condition leader o a) (hstep : o.world.step a = some w)
    (hown : ∀ k env, a ≠ .advance leader k env) (hpromotes : o.promotes a = []) :
    Inv leader ⟨w, o.current ++ o.promotes a⟩ := by
  obtain ⟨hthreads, hstate⟩ := World.aside_of_step hstep hown
  refine inv_keep h (fun j hj k stage hk => ?_) (fun k stage hk hholds => ?_) ?_ hpromotes
  · by_cases hmine : ∃ k env, a = .advance j k env
    · -- a goroutine of another sentinel does not get past the count
      obtain ⟨k', env, rfl⟩ := hmine
      obtain ⟨before, hbefore, -, hcases, -⟩ := World.step_advance hstep
      rcases hcases k stage hk with ⟨-, rfl⟩ | ⟨-, hold⟩
      · refine Stage.not_past_advance (h.others j hj k' before hbefore) ?_
        rintro rfl
        exact (hcond _ hbefore).resolve_left hj
      · exact h.others j hj k stage hold
    · have hother := World.aside_of_step hstep fun k env he => hmine ⟨k, env, he⟩
      rcases hother.threads k stage hk with hold | ⟨-, hcommand⟩
      · exact h.others j hj k stage hold
      · intro hpast
        have hi := hcommand hpast
        subst hi
        exact hj hcond
  · exact (hthreads k stage hk).resolve_right fun hnew => hnew.1 hholds
  · rcases hstate with heq | ⟨answered, now, rfl, heq⟩
    · exact ⟨fun hfailover => heq.trans hfailover, fun _ hok => heq.trans hok⟩
    · rw [heq]
      exact ⟨fun hfailover => MasterInstance.checkMaster_of_failover hfailover leader answered now,
        fun hsome hok => MasterInstance.checkMaster_of_ok hok leader (hcond rfl hsome)⟩

omit [DecidableEq ι] in
/-- A goroutine of the leader that gets hold of the failover finds it in nobody's hands. -/
theorem free_of_getState (h : Inv leader o) {env : Env} {auto : Bool}
    (hcond : GoesOn leader o leader env (.getState auto))
    (hpass : (o.node leader).master.state ≠ .failover) :
    o.current = [] ∧ ∀ (l : Nat) (stage : Stage), (o.node leader).threads[l]? = some stage →
      ¬ stage.Holding := by
  obtain ⟨hdown, hset⟩ := hcond.resolve_left hpass
  refine ⟨?_, fun l stage hl hholds => ?_⟩
  · by_contra hsome
    rcases (h.late hsome).1 with hok | hfailover
    · rw [MasterInstance.IsDown, hok] at hdown
      simp at hdown
    · exact hpass hfailover
  · exact hpass (h.state l stage hl hholds (hset stage (mem_of_getElem? hl)))

omit [DecidableEq ι] in
/-- The step of the goroutine that holds the failover. -/
theorem inv_holder (h : Inv leader o) {k : Nat} {env : Env} {before : Stage}
    (hbefore : (o.node leader).threads[k]? = some before) (hheld : before.Holding)
    (hok : GoesOn leader o leader env before)
    (hmaster : (w.node leader).master = (before.advance (o.node leader).master env).1)
    (hothers : w.OthersBehind leader)
    (halone : ∀ (l : Nat) (stage : Stage), (w.node leader).threads[l]? = some stage → stage.Holding →
      l = k ∧ stage = (before.advance (o.node leader).master env).2) :
    Inv leader ⟨w, o.current ++ o.promotes (.advance leader k env)⟩ := by
  have hstate := h.state k before hbefore hheld
  refine ⟨hothers, fun l l' stage stage' hl hholds hl' hholds' => ?_, fun l stage hl hholds _ => ?_, ?_,
    fun hsome => ?_⟩
  · exact (halone l stage hl hholds).1.trans (halone l' stage' hl' hholds').1.symm
  · obtain ⟨-, rfl⟩ := halone l stage hl hholds
    show (w.node leader).master.state = .failover
    rw [hmaster]
    exact (Stage.failover_advance hheld hstate hholds).1
  · -- a promotion is only possible while the outage has none
    rw [length_append]
    by_cases hcurrent : o.current = []
    · rw [hcurrent]
      exact (Nat.zero_add _).le.trans (length_promotes_le o _)
    · obtain ⟨slave, rfl⟩ := (h.late hcurrent).2 k before hbefore hheld
      rw [promotes_eq_nil hbefore fun _ => by simp]
      exact (length_current_le o).trans h.short
  · show ((w.node leader).master.state = _ ∨ (w.node leader).master.state = _) ∧ _
    rw [hmaster]
    by_cases hcurrent : o.current = []
    · -- this step has promoted the replica
      have hpromotes : o.promotes (.advance leader k env) ≠ [] := by
        have := promoted_ne_nil hsome
        rwa [hcurrent, nil_append] at this
      obtain ⟨slave, rfl⟩ : ∃ slave, before = .executeFailover slave := by
        by_contra hnot
        exact hpromotes (promotes_eq_nil hbefore fun slave heq => hnot ⟨slave, heq⟩)
      have hreply : env.reply = .ok := by
        cases hr : env.reply with
        | ok => rfl
        | lost => exact absurd hr hok
        | refused =>
          rw [promotes, hbefore] at hpromotes
          simp [hr] at hpromotes
      refine ⟨.inr (hstate fun _ => by simp), fun l stage hl hholds => ⟨slave, ?_⟩⟩
      rw [(halone l stage hl hholds).2, Stage.advance, if_pos hreply]
    · -- the new address is set
      obtain ⟨slave, rfl⟩ := (h.late hcurrent).2 k before hbefore hheld
      refine ⟨.inl rfl, fun l stage hl hholds => ?_⟩
      rw [(halone l stage hl hholds).2] at hholds
      cases hholds

omit [DecidableEq ι] in
/-- The step with which a goroutine gets hold of the failover. -/
theorem inv_acquire (h : Inv leader o) {k : Nat} {env : Env} {auto : Bool}
    (hbefore : (o.node leader).threads[k]? = some (.getState auto))
    (hok : GoesOn leader o leader env (.getState auto))
    (hpass : (o.node leader).master.state ≠ .failover)
    (hothers : w.OthersBehind leader)
    (hcases : ∀ (l : Nat) (stage : Stage), (w.node leader).threads[l]? = some stage →
      l = k ∧ stage = (Stage.advance (o.node leader).master env (.getState auto)).2 ∨
        l ≠ k ∧ (o.node leader).threads[l]? = some stage) :
    Inv leader ⟨w, o.current ++ o.promotes (.advance leader k env)⟩ := by
  obtain ⟨hcurrent, hfree⟩ := free_of_getState h hok hpass
  have hmine : ∀ (l : Nat) (stage : Stage), (w.node leader).threads[l]? = some stage →
      stage.Holding → l = k ∧ stage = .setState auto := by
    intro l stage hl hholds
    rcases hcases l stage hl with ⟨hk, heq⟩ | ⟨-, hold⟩
    · rw [Stage.advance, if_neg hpass] at heq
      exact ⟨hk, heq⟩
    · exact absurd hholds (hfree l stage hold)
  have hnone : o.current ++ o.promotes (.advance leader k env) = [] := by
    rw [hcurrent, promotes_eq_nil hbefore fun _ => by simp, append_nil]
  refine ⟨hothers, fun l l' stage stage' hl hholds hl' hholds' => ?_, fun l stage hl hholds hne => ?_, ?_,
    fun hsome => absurd hnone (promoted_ne_nil hsome)⟩
  · exact (hmine l stage hl hholds).1.trans (hmine l' stage' hl' hholds').1.symm
  · exact absurd (hmine l stage hl hholds).2 (hne auto)
  · rw [hnone]
    exact Nat.zero_le 1

/-- A step of a goroutine of the leader. -/
theorem inv_own (h : Inv leader o) {k : Nat} {env : Env} (hcond : Condition leader o (.advance leader k env))
    (hstep : o.world.step (.advance leader k env) = some w) :
    Inv leader ⟨w, o.current ++ o.promotes (.advance leader k env)⟩ := by
  obtain ⟨before, hbefore, hmaster, hcases, hother⟩ := World.step_advance hstep
  have hok := hcond before hbefore
  have hothers : w.OthersBehind leader := by
    intro j hj k stage hk
    rw [hother j hj] at hk
    exact h.others j hj k stage hk
  by_cases hheld : before.Holding
  · -- this goroutine holds the failover, so no other does
    have halone : ∀ (l : Nat) (stage : Stage), (w.node leader).threads[l]? = some stage →
        stage.Holding → l = k ∧ stage = (before.advance (o.node leader).master env).2 := by
      intro l stage hl hholds
      rcases hcases l stage hl with hnext | ⟨hne, hold⟩
      · exact hnext
      · exact absurd (h.single l k stage before hold hholds hbefore hheld) hne
    exact inv_holder h hbefore hheld hok hmaster hothers halone
  · by_cases hnext : (before.advance (o.node leader).master env).2.Holding
    · -- it gets hold of the failover
      obtain ⟨⟨auto, rfl⟩, hpass⟩ := (Stage.holding_of_advance hnext).resolve_left hheld
      exact inv_acquire h hbefore hok hpass hothers hcases
    · -- it comes no further
      have hold : ∀ (l : Nat) (stage : Stage), (w.node leader).threads[l]? = some stage →
          stage.Holding → (o.node leader).threads[l]? = some stage := by
        intro l stage hl hholds
        rcases hcases l stage hl with ⟨-, rfl⟩ | ⟨-, hold⟩
        · exact absurd hholds hnext
        · exact hold
      have hstate : (w.node leader).master.state = (o.node leader).master.state := by
        rw [hmaster]
        exact Stage.state_advance hheld
      have hnone : o.promotes (.advance leader k env) = [] :=
        promotes_eq_nil hbefore fun slave heq => hheld (heq ▸ trivial)
      exact inv_keep h hothers hold ⟨hstate.trans, fun _ => hstate.trans⟩ hnone

theorem inv_step {o' : Outage ι} (h : Inv leader o) (hcond : Condition leader o a)
    (hstep : o.step a = some o') : Inv leader o' := by
  obtain ⟨w, hw, rfl⟩ := Option.map_eq_some_iff.mp hstep
  by_cases hown : ∃ k env, a = .advance leader k env
  · obtain ⟨k, env, rfl⟩ := hown
    exact inv_own h hcond hw
  · refine inv_other h hcond hw (fun k env heq => hown ⟨k, env, heq⟩) ?_
    -- another sentinel has no goroutine that could promote
    cases a with
    | advance i k env =>
      have hi : i ≠ leader := fun heq => hown ⟨k, env, heq ▸ rfl⟩
      obtain ⟨before, hbefore, -⟩ := World.step_advance hw
      refine promotes_eq_nil hbefore fun slave heq => ?_
      exact h.others i hi k before hbefore (heq ▸ trivial)
    | _ => rfl

omit [DecidableEq ι] in
theorem inv_start (leader : ι) (addr : Bytes) (quorum downAfter : ι → Int) (now : Int) :
    Inv leader (start addr quorum downAfter now) := by
  refine ⟨fun _ _ _ _ => nofun, fun _ _ _ _ => nofun, fun _ _ => nofun, Nat.zero_le 1, fun hsome => ?_⟩
  exact absurd rfl (promoted_ne_nil hsome)

end Outage

/-- **One promotion per outage.** However the checks, the reports and the goroutines of all sentinels
interleave, an outage promotes at most one replica if one sentinel counts the quorum, none of its goroutines
finds the failover free after another's, no answer of a replica is lost, and the master is not found down
again before all sentinels have the new address. -/
theorem one_promotion_per_outage {ι : Type} [DecidableEq ι] [Fintype ι] (leader : ι) (addr : Bytes)
    (quorum downAfter : ι → Int) (now : Int) (as : List (Act ι)) (o : Outage ι)
    (hok : Meets Outage.step (Outage.Condition leader) (.start addr quorum downAfter now) as)
    (hrun : run Outage.step (.start addr quorum downAfter now) as = some o) :
    ∀ a ∈ o.promoted, ∀ b ∈ o.promoted, a = b := by
  have hinv : o.Inv leader := run_invariant (fun _ _ _ h hc hs => Outage.inv_step h hc hs)
    (Outage.inv_start leader addr quorum downAfter now) hok hrun
  intro a ha b hb
  cases hp : o.promoted with
  | nil =>
    rw [hp] at ha
    cases ha
  | cons c rest =>
    have hrest : rest = [] := by
      have hshort := hinv.short
      rw [hp, length_cons] at hshort
      exact eq_nil_of_length_eq_zero (by omega)
    rw [hp, hrest] at ha hb
    rw [mem_singleton.mp ha, mem_singleton.mp hb]

/-- Two sentinels of quorum two find the master down and hear of each other; each knows two replicas. -/
def bothDown : List (Act Bool) :=
  [.slaves false [⟨[2], true, 7⟩, ⟨[3], true, 5⟩], .slaves true [⟨[2], true, 7⟩, ⟨[3], true, 5⟩],
    .readMaster true, .checkMaster true false 100, .broadcastSdown true [false],
    .readMaster false, .checkMaster false false 100, .broadcastSdown false [true],
    .handleSdown 1, .handleSdown 2]

/-- A goroutine goes from `handleSdown` to the new address. -/
def failover (i : Bool) (n : Nat) (answers : Bytes → Bool) : List (Act Bool) :=
  List.replicate n (.advance i 0 ⟨100, answers, .ok⟩)

theorem one_promotion_per_outage_first :
    ∃ o : Outage Bool, run Outage.step (.start [1] (fun _ => 2) (fun _ => 30) 0)
        (bothDown ++ failover false 11 fun _ => true) = some o ∧
      (o.promoted = [[2]] ∧ (o.world.node false).master.addr = [2]) ∧
      ∀ a ∈ o.promoted, ∀ b ∈ o.promoted, a = b := by
  obtain ⟨o, hrun, hend⟩ : ∃ o : Outage Bool,
      run Outage.step (.start [1] (fun _ => 2) (fun _ => 30) 0)
          (bothDown ++ failover false 11 fun _ => true) = some o ∧
        (o.promoted = [[2]] ∧ (o.world.node false).master.addr = [2]) := run_end (by decide +kernel)
  exact ⟨o, hrun, hend, one_promotion_per_outage false [1] (fun _ => 2) (fun _ => 30) 0 _ o
    (by decide +kernel) hrun⟩

/-- The second sentinel does not reach the replica that the first one promoted, and promotes the other. -/
theorem two_promotions : ∃ o : Outage Bool, run Outage.step (.start [1] (fun _ => 2) (fun _ => 30) 0)
      (bothDown ++ failover false 11 (fun _ => true) ++ failover true 10 (· ≠ [2])) = some o ∧
    o.promoted = [[2], [3]] := run_end (by decide +kernel)

end BoltDB.Sentinel
