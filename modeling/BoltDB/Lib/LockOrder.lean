import BoltDB.Lib.Transition

/-!
# Exclusive locks taken in a global order

Processes of type `ι` take exclusive, non-reentrant locks of type `L`. A process enters a critical
section with a request; `plan` says which locks the request takes, one after the other, and they
are given back in the opposite order once the process holds all of them.

* `step` — entering a section, taking the next lock of the plan, giving the last one back.
* `WaitsFor` — a process stands in front of a lock that another process (or itself) holds.
* `not_deadlocked_of_run` — if every plan is strictly increasing, no run reaches a cycle of waiting
  processes.
* `exists_deadlock` — a plan that is not strictly increasing deadlocks, alone or with one process
  that takes two of its locks in increasing order.
-/

namespace LockOrder

open Transition List Function

variable {ι L R : Type*}

/-- One process: the locks it holds, last taken first, and the rest of its plan. -/
structure Proc (L : Type*) where
  held : List L
  todo : List L

/-- The processes, and for every lock the process that holds it. -/
structure State (ι L : Type*) where
  procs : ι → Proc L
  owner : L → Option ι

inductive Label (ι R : Type*)
  | enter (p : ι) (r : R)
  | lock (p : ι)
  | unlock (p : ι)

def State.init : State ι L where
  procs _ := ⟨[], []⟩
  owner _ := none

section Step

variable [DecidableEq ι] [DecidableEq L]

def step (plan : R → List L) (s : State ι L) : Label ι R → Option (State ι L)
  | .enter p r =>
    match s.procs p with
    | ⟨[], []⟩ => some { s with procs := Function.update s.procs p ⟨[], plan r⟩ }
    | _ => none
  | .lock p =>
    match s.procs p with
    | ⟨held, l :: todo⟩ =>
      -- taking a held lock blocks, also when the process itself holds it
      if s.owner l = none then
        some { procs := Function.update s.procs p ⟨l :: held, todo⟩
               owner := Function.update s.owner l (some p) }
      else none
    | _ => none
  | .unlock p =>
    match s.procs p with
    | ⟨l :: held, []⟩ =>
      some { procs := Function.update s.procs p ⟨held, []⟩
             owner := Function.update s.owner l none }
    | _ => none

end Step

/-- `p` is about to take a lock that `q` holds. -/
def WaitsFor (s : State ι L) (p q : ι) : Prop :=
  ∃ l rest, (s.procs p).todo = l :: rest ∧ s.owner l = some q

/-- Some process waits, through a chain of waiting processes, for itself. -/
def Deadlocked (s : State ι L) : Prop := ∃ p, Relation.TransGen (WaitsFor s) p p

/-! ## The order argument -/

section Order

variable [LinearOrder L]

/-- Locks and owners agree, and every process has taken and will take its locks in increasing
order. -/
structure Ordered (s : State ι L) : Prop where
  owner_iff : ∀ l p, s.owner l = some p ↔ l ∈ (s.procs p).held
  sorted : ∀ p, ((s.procs p).held.reverse ++ (s.procs p).todo).Pairwise (· < ·)

theorem Ordered.init : Ordered (State.init : State ι L) where
  owner_iff := by simp [State.init]
  sorted := by simp [State.init]

variable {s : State ι L} {p : ι}

/-- What a process holds is smaller than what it waits for. -/
theorem Ordered.held_lt (h : Ordered s) {l l' : L} {rest : List L} (hheld : s.owner l = some p)
    (htodo : (s.procs p).todo = l' :: rest) : l < l' := by
  have hsorted := pairwise_append.mp (h.sorted p)
  refine hsorted.2.2 l ?_ l' ?_
  · exact mem_reverse.mpr ((h.owner_iff l p).mp hheld)
  · simp [htodo]

/-- Along a chain of waiting processes the locks grow: the last process of the chain holds a lock
that is at least as large as the one the first process waits for. -/
theorem Ordered.le_of_waits (h : Ordered s) {q : ι} (hchain : Relation.TransGen (WaitsFor s) p q)
    {l : L} {rest : List L} (htodo : (s.procs p).todo = l :: rest) :
    ∃ l', s.owner l' = some q ∧ l ≤ l' := by
  induction hchain with
  | single hwait =>
    obtain ⟨l', _, htodo', howner⟩ := hwait
    rw [htodo] at htodo'
    cases htodo'
    exact ⟨l, howner, le_rfl⟩
  | tail _ hwait ih =>
    obtain ⟨l₁, hown₁, hle⟩ := ih
    obtain ⟨l₂, _, htodo₂, hown₂⟩ := hwait
    exact ⟨l₂, hown₂, hle.trans (h.held_lt hown₁ htodo₂).le⟩

theorem Ordered.not_deadlocked (h : Ordered s) : ¬ Deadlocked s := by
  rintro ⟨p, hcycle⟩
  obtain ⟨q, ⟨l, rest, htodo, howner⟩, -⟩ := Relation.TransGen.head'_iff.mp hcycle
  obtain ⟨l', hown, hle⟩ := h.le_of_waits hcycle htodo
  exact absurd (h.held_lt hown htodo) (not_lt.mpr hle)

variable [DecidableEq ι] {plan : R → List L} {t : State ι L}

theorem Ordered.enter (h : Ordered s) {r : R} (hplan : (plan r).Pairwise (· < ·))
    (hstep : step plan s (.enter p r) = some t) : Ordered t := by
  simp only [step] at hstep
  split at hstep
  case h_2 => cases hstep
  case h_1 hidle =>
    cases hstep
    constructor
    · intro l q
      rw [h.owner_iff]
      by_cases hq : q = p
      · subst hq; simp [hidle]
      · simp [hq]
    · intro q
      by_cases hq : q = p
      · subst hq; simpa using hplan
      · simpa [hq] using h.sorted q

theorem Ordered.lock (h : Ordered s) (hstep : step plan s (.lock p) = some t) : Ordered t := by
  simp only [step] at hstep
  split at hstep
  case h_2 => cases hstep
  case h_1 held l todo hproc =>
    split at hstep
    case isFalse => cases hstep
    case isTrue hfree =>
      cases hstep
      constructor
      · intro l' q
        have howner := h.owner_iff l' q
        by_cases hq : q = p
        · by_cases hl : l' = l <;> simp_all
        · -- nobody else holds the lock that was free
          by_cases hl : l' = l
          · subst hl
            rw [hfree] at howner
            simpa [hq, Ne.symm hq] using howner
          · simpa [hq, hl] using howner
      · intro q
        by_cases hq : q = p
        · subst hq
          have := h.sorted q
          rw [hproc] at this
          simpa using this
        · simpa [hq] using h.sorted q

theorem Ordered.unlock (h : Ordered s) (hstep : step plan s (.unlock p) = some t) : Ordered t := by
  simp only [step] at hstep
  split at hstep
  case h_2 => cases hstep
  case h_1 l held hproc =>
    cases hstep
    have hsorted := h.sorted p
    rw [hproc] at hsorted
    simp only [reverse_cons, append_nil] at hsorted
    have hnot : l ∉ held := by
      intro hmem
      have := (pairwise_append.mp hsorted).2.2 l (mem_reverse.mpr hmem) l (by simp)
      exact lt_irrefl l this
    constructor
    · intro l' q
      have howner := h.owner_iff l' q
      by_cases hl : l' = l
      · subst hl
        have hmine : s.owner l' = some p := (h.owner_iff l' p).mpr (by simp [hproc])
        by_cases hq : q = p
        · subst hq; simp [hnot]
        · rw [hmine] at howner
          simpa [hq, Ne.symm hq] using howner
      · by_cases hq : q = p
        · subst hq
          rw [hproc] at howner
          simpa [hl] using howner
        · simpa [hq, hl] using howner
    · intro q
      by_cases hq : q = p
      · subst hq
        simpa using (pairwise_append.mp hsorted).1
      · simpa [hq] using h.sorted q

/-- The condition on a step: a section is entered with a request that satisfies `P`. -/
def Label.Enters (P : R → Prop) : Label ι R → Prop
  | .enter _ r => P r
  | _ => True

/-- **Ordered plans.** If every section is entered with a strictly increasing plan, no state of
the run has a cycle of waiting processes. -/
theorem not_deadlocked_of_run {P : R → Prop} (hP : ∀ r, P r → (plan r).Pairwise (· < ·))
    {as : List (Label ι R)} (has : ∀ a ∈ as, a.Enters P) (hrun : run (step plan) .init as = some t) :
    ¬ Deadlocked t := by
  suffices h : ∀ s, Ordered s → run (step plan) s as = some t → Ordered t from
    (h .init .init hrun).not_deadlocked
  clear hrun
  induction as with
  | nil => intro s hs hrun; cases hrun; exact hs
  | cons a as ih =>
    intro s hs hrun
    obtain ⟨s', hstep, hrest⟩ := run_cons_eq_some.mp hrun
    refine ih (fun b hb => has b (mem_cons_of_mem a hb)) s' ?_ hrest
    have ha := has a mem_cons_self
    cases a with
    | enter p r => exact hs.enter (hP r ha) hstep
    | lock p => exact hs.lock hstep
    | unlock p => exact hs.unlock hstep

/-! ## Plans out of order -/

/-- The shortest prefix of a list at which it stops being increasing. -/
theorem exists_descent {ls : List L} (h : ¬ ls.Pairwise (· < ·)) :
    ∃ pre y post, ls = pre ++ y :: post ∧ pre.Pairwise (· < ·) ∧ ∃ x ∈ pre, y ≤ x := by
  induction ls using List.reverseRecOn with
  | nil => simp at h
  | append_singleton init y ih =>
    by_cases hinit : init.Pairwise (· < ·)
    · refine ⟨init, y, [], rfl, hinit, ?_⟩
      by_contra hall
      refine h (pairwise_append.mpr ⟨hinit, pairwise_singleton _ _, ?_⟩)
      intro x hx y' hy'
      rw [mem_singleton.mp hy']
      exact not_le.mp fun hle => hall ⟨x, hx, hle⟩
    · obtain ⟨pre, y', post, heq, hpre, hx⟩ := ih hinit
      exact ⟨pre, y', post ++ [y], by simp [heq], hpre, hx⟩

/-- A process takes a run of free, distinct locks of its plan. -/
theorem run_lock_all (plan : R → List L) (s : State ι L) (p : ι) (held pre rest : List L)
    (hproc : s.procs p = ⟨held, pre ++ rest⟩) (hnodup : pre.Nodup)
    (hfree : ∀ l ∈ pre, s.owner l = none) :
    ∃ t, run (step plan) s (List.replicate pre.length (.lock p)) = some t ∧
      t.procs p = ⟨pre.reverse ++ held, rest⟩ ∧ (∀ q ≠ p, t.procs q = s.procs q) ∧
      (∀ l ∈ pre, t.owner l = some p) ∧ ∀ l ∉ pre, t.owner l = s.owner l := by
  induction pre generalizing s held with
  | nil => exact ⟨s, rfl, hproc, fun _ _ => rfl, by simp, fun _ _ => rfl⟩
  | cons l pre ih =>
    obtain ⟨hnot, hnodup⟩ := nodup_cons.mp hnodup
    let s₁ : State ι L :=
      { procs := Function.update s.procs p ⟨l :: held, pre ++ rest⟩
        owner := Function.update s.owner l (some p) }
    have hstep : step plan s (.lock p) = some s₁ := by
      simp only [step, hproc, cons_append, hfree l mem_cons_self, if_true, s₁]
    have hfree₁ : ∀ l' ∈ pre, s₁.owner l' = none := by
      intro l' hl'
      have hne : l' ≠ l := fun heq => hnot (heq ▸ hl')
      show Function.update s.owner l (some p) l' = none
      rw [update_of_ne hne]
      exact hfree l' (mem_cons_of_mem l hl')
    obtain ⟨t, hrun, hp, hq, hmem, hout⟩ := ih s₁ (l :: held) (update_self _ _ _) hnodup hfree₁
    refine ⟨t, run_cons_eq_some.mpr ⟨s₁, hstep, hrun⟩, by simp [hp], ?_, ?_, ?_⟩
    · intro q hne
      rw [hq q hne]
      exact update_of_ne hne _ _
    · intro l' hl'
      rcases mem_cons.mp hl' with rfl | hl'
      · rw [hout _ hnot]
        exact update_self _ _ _
      · exact hmem l' hl'
    · intro l' hl'
      rw [mem_cons, not_or] at hl'
      rw [hout l' hl'.2]
      exact update_of_ne hl'.1 _ _

/-- **Plans out of order.** A plan that is not strictly increasing leads into a deadlock: with
itself when it names a lock twice, and otherwise with a process that takes two of its locks in
increasing order. -/
theorem exists_deadlock (plan : R → List L) {P : R → Prop} {r : R} (hr : P r)
    (hplan : ¬ (plan r).Pairwise (· < ·))
    (htwo : ∀ x ∈ plan r, ∀ y ∈ plan r, y < x → ∃ r', P r' ∧ plan r' = [y, x]) {q : ι} (hpq : p ≠ q) :
    ∃ as t, (∀ a ∈ as, Label.Enters P a) ∧ run (step plan) .init as = some t ∧
      Deadlocked (t : State ι L) := by
  obtain ⟨pre, y, post, heq, hpre, x, hx, hle⟩ := exists_descent hplan
  have hnodup : pre.Nodup := hpre.imp ne_of_lt
  have hlocks : ∀ a ∈ List.replicate pre.length (Label.lock p), Label.Enters P a := by
    intro a ha
    rw [eq_of_mem_replicate ha]
    trivial
  by_cases hy : y ∈ pre
  · -- the process stands in front of a lock it holds
    let s : State ι L :=
      { procs := Function.update (fun _ => ⟨[], []⟩) p ⟨[], plan r⟩, owner := fun _ => none }
    have henter : step plan .init (.enter p r) = some s := rfl
    obtain ⟨t, hrun, hp, -, hmem, -⟩ :=
      run_lock_all plan s p [] pre (y :: post) (by simp [s, heq]) hnodup (fun _ _ => rfl)
    refine ⟨.enter p r :: List.replicate pre.length (.lock p), t, ?_,
      run_cons_eq_some.mpr ⟨s, henter, hrun⟩, p, .single ⟨y, post, by rw [hp], hmem y hy⟩⟩
    exact forall_mem_cons.mpr ⟨hr, hlocks⟩
  · have hlt : y < x := lt_of_le_of_ne hle fun h => hy (h ▸ hx)
    obtain ⟨r', hr', hplan'⟩ := htwo x (by simp [heq, hx]) y (by simp [heq]) hlt
    -- `q` holds the smaller lock when `p` takes the larger one
    let s : State ι L :=
      { procs := Function.update (Function.update (fun _ => ⟨[], []⟩) q ⟨[y], [x]⟩) p ⟨[], plan r⟩
        owner := Function.update (fun _ => none) y (some q) }
    have hfirst : run (step plan) .init [.enter q r', .lock q, .enter p r] = some s := by
      simp [run, step, State.init, hplan', hpq, s]
    have hfree : ∀ l ∈ pre, s.owner l = none := by
      intro l hl
      have hne : l ≠ y := fun h => hy (h ▸ hl)
      simp [s, hne]
    obtain ⟨t, hrun, hp, hq, hmem, hout⟩ :=
      run_lock_all plan s p [] pre (y :: post) (by simp [s, heq]) hnodup hfree
    have hpWaits : WaitsFor t p q := by
      refine ⟨y, post, by rw [hp], ?_⟩
      rw [hout y hy]
      simp [s]
    have hqWaits : WaitsFor t q p := by
      refine ⟨x, [], ?_, hmem x hx⟩
      rw [hq q hpq.symm]
      simp [s, hpq.symm]
    refine ⟨_, t, ?_, run_append_eq_some hfirst hrun, p, .tail (.single hpWaits) hqWaits⟩
    intro a ha
    rcases mem_append.mp ha with ha | ha
    · rcases mem_cons.mp ha with rfl | ha
      · exact hr'
      · rcases mem_cons.mp ha with rfl | ha
        · trivial
        · rw [mem_singleton.mp ha]
          exact hr
    · exact hlocks a ha

end Order

end LockOrder
