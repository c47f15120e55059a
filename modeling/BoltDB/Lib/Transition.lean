import Mathlib

/-!
# Runs of a labelled transition system

A system is a partial function `step : σ → α → Option σ`: the label carries every choice the
environment makes, so a step is deterministic once its label is known, and `none` says that the
label is not enabled. A run is a list of labels.

* `run` — the state a list of labels leads to.
* `Meets` — every step of a run satisfies a condition on the label and on the state it is taken from.
* `run_invariant` — what every conditioned step preserves holds after every conditioned run.
-/

namespace Transition

variable {σ α : Type*}

/-- The state reached from `s` along a list of labels, `none` once a label is not enabled. -/
def run (step : σ → α → Option σ) (s : σ) : List α → Option σ
  | [] => some s
  | a :: as => (step s a).bind fun s' => run step s' as

/-- Every step taken along the run satisfies `ok` in the state it is taken from. -/
def Meets (step : σ → α → Option σ) (ok : σ → α → Prop) (s : σ) : List α → Prop
  | [] => True
  | a :: as => ok s a ∧
    match step s a with
    | some s' => Meets step ok s' as
    | none => True

variable {step : σ → α → Option σ}

instance Meets.decidable {ok : σ → α → Prop} [∀ s a, Decidable (ok s a)] (s : σ) :
    (as : List α) → Decidable (Meets step ok s as)
  | [] => .isTrue trivial
  | a :: as =>
    have : Decidable (match step s a with
        | some s' => Meets step ok s' as
        | none => True) :=
      match step s a with
      | some s' => Meets.decidable s' as
      | none => .isTrue trivial
    inferInstanceAs (Decidable (_ ∧ _))

variable {as : List α} {s : σ} {ok : σ → α → Prop}

theorem Meets.tail {s' : σ} {a : α} (h : Meets step ok s (a :: as)) (hs : step s a = some s') :
    Meets step ok s' as := by
  have := h.2
  rwa [hs] at this

theorem Meets.cons {s' : σ} {a : α} (ha : ok s a) (hs : step s a = some s')
    (h : Meets step ok s' as) : Meets step ok s (a :: as) :=
  ⟨ha, by rwa [hs]⟩

theorem Meets.mono {ok' : σ → α → Prop} (h : Meets step ok s as) (hok : ∀ s a, ok s a → ok' s a) :
    Meets step ok' s as := by
  induction as generalizing s with
  | nil => trivial
  | cons a as ih =>
    refine ⟨hok s a h.1, ?_⟩
    cases hs : step s a with
    | none => trivial
    | some s' => exact ih (h.tail hs)

theorem run_cons_eq_some {t : σ} {a : α} :
    run step s (a :: as) = some t ↔ ∃ s', step s a = some s' ∧ run step s' as = some t := by
  simp [run, Option.bind_eq_some_iff]

/-- A run that can be computed ends in a state that can be checked. -/
theorem run_end {P : σ → Prop} [DecidablePred P]
    (h : (run step s as).any (fun t => decide (P t)) = true) : ∃ t, run step s as = some t ∧ P t := by
  cases ht : run step s as with
  | none =>
    rw [ht] at h
    cases h
  | some t =>
    rw [ht] at h
    exact ⟨t, rfl, of_decide_eq_true h⟩

theorem run_append_eq_some {t u : σ} {bs : List α} (hs : run step s as = some t)
    (ht : run step t bs = some u) : run step s (as ++ bs) = some u := by
  induction as generalizing s with
  | nil => cases hs; exact ht
  | cons a as ih =>
    obtain ⟨s', hstep, hrest⟩ := run_cons_eq_some.mp hs
    exact run_cons_eq_some.mpr ⟨s', hstep, ih hrest⟩

theorem meets_append {t : σ} {bs : List α} (hs : run step s as = some t) :
    Meets step ok s (as ++ bs) ↔ Meets step ok s as ∧ Meets step ok t bs := by
  induction as generalizing s with
  | nil =>
    cases hs
    exact ⟨fun h => ⟨trivial, h⟩, And.right⟩
  | cons a as ih =>
    obtain ⟨s', hstep, hrest⟩ := run_cons_eq_some.mp hs
    rw [List.cons_append, Meets, Meets, hstep]
    show ok s a ∧ Meets step ok s' (as ++ bs) ↔ (ok s a ∧ Meets step ok s' as) ∧ _
    rw [ih hrest, and_assoc]

/-- **The invariant rule.** A property that every step meeting `ok` preserves holds at the end of
every run whose steps all meet `ok`. -/
theorem run_invariant {Inv : σ → Prop}
    (hstep : ∀ s a s', Inv s → ok s a → step s a = some s' → Inv s') {t : σ} (hs : Inv s)
    (hok : Meets step ok s as) (hrun : run step s as = some t) : Inv t := by
  induction as generalizing s with
  | nil => cases hrun; exact hs
  | cons a as ih =>
    obtain ⟨s', hs', hrest⟩ := run_cons_eq_some.mp hrun
    exact ih (hstep s a s' hs hok.1 hs') (hok.tail hs') hrest

theorem meets_true (s : σ) (as : List α) : Meets step (fun _ _ => True) s as := by
  induction as generalizing s with
  | nil => trivial
  | cons a as ih =>
    refine ⟨trivial, ?_⟩
    split
    · exact ih _
    · trivial

/-- The invariant rule without a condition on the steps. -/
theorem run_preserves {Inv : σ → Prop} (hstep : ∀ s a s', Inv s → step s a = some s' → Inv s')
    {t : σ} (hs : Inv s) (hrun : run step s as = some t) : Inv t :=
  run_invariant (fun s a s' h _ hs' => hstep s a s' h hs') hs (meets_true s as) hrun

end Transition
