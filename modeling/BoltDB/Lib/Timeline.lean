import Mathlib

/-!
# Folding a timeline

A timeline is a finite map from timestamps to updates. Its state at `t` is the fold of the updates
at or below `t`, in timestamp order.

* `foldUpTo_congr` — the state at `t` depends on the updates at or below `t` only.
* `foldAll_eq_foldUpTo` — without later updates the state at `t` is the last one.
* `foldAll_eq_foldl_later` — the last state is the state at `t` with the later updates on top.
* `foldUpTo_next` — the state at the next update is that update applied to the state before.
-/

namespace Timeline

open List Std.ExtTreeMap

variable {β σ : Type*} (apply : β → σ → σ) (init : σ)

/-- The state after the updates at or below `t`. -/
def foldUpTo (tl : Std.ExtTreeMap Nat β compare) (t : Nat) : σ :=
  (tl.toList.filter (·.1 ≤ t)).foldl (fun s e => apply e.2 s) init

/-- The state after every update. -/
def foldAll (tl : Std.ExtTreeMap Nat β compare) : σ := tl.toList.foldl (fun s e => apply e.2 s) init

theorem sorted_ext {l l' : List (Nat × β)} (hl : l.Pairwise fun e f => e.1 < f.1)
    (hl' : l'.Pairwise fun e f => e.1 < f.1) (hmem : ∀ e, e ∈ l ↔ e ∈ l') : l = l' := by
  have hnd : ∀ {k : List (Nat × β)}, (k.Pairwise fun e f => e.1 < f.1) → k.Nodup := by
    intro k hk
    refine hk.imp ?_
    rintro e f hlt rfl
    exact lt_irrefl _ hlt
  apply List.Perm.eq_of_pairwise _ hl hl' ((perm_ext_iff_of_nodup (hnd hl) (hnd hl')).mpr hmem)
  intro e f _ _ hef hfe
  exact absurd (hef.trans hfe) (lt_irrefl _)

theorem sorted_toList (tl : Std.ExtTreeMap Nat β compare) :
    tl.toList.Pairwise fun e f => e.1 < f.1 := by
  refine ordered_keys_toList.imp ?_
  intro e f hlt
  exact Nat.compare_eq_lt.mp hlt

theorem mem_filter_toList {tl : Std.ExtTreeMap Nat β compare} {t : Nat} {e : Nat × β} :
    e ∈ tl.toList.filter (·.1 ≤ t) ↔ tl[e.1]? = some e.2 ∧ e.1 ≤ t := by
  rw [List.mem_filter, mem_toList_iff_getElem?_eq_some]
  simp

variable {apply init} {tl tl' : Std.ExtTreeMap Nat β compare} {t : Nat}

theorem foldUpTo_congr (h : ∀ u ≤ t, tl[u]? = tl'[u]?) :
    foldUpTo apply init tl t = foldUpTo apply init tl' t := by
  unfold foldUpTo
  congr 1
  apply sorted_ext ((sorted_toList tl).filter _) ((sorted_toList tl').filter _)
  intro e
  rw [mem_filter_toList, mem_filter_toList]
  constructor
  · rintro ⟨h1, h2⟩; exact ⟨(h _ h2) ▸ h1, h2⟩
  · rintro ⟨h1, h2⟩; exact ⟨(h _ h2).symm ▸ h1, h2⟩

theorem foldAll_eq_foldUpTo (h : ∀ u ∈ tl, u ≤ t) :
    foldAll apply init tl = foldUpTo apply init tl t := by
  unfold foldAll foldUpTo
  rw [filter_eq_self.mpr]
  intro e he
  have hmem : e.1 ∈ tl := by
    rw [mem_iff_isSome_getElem?, mem_toList_iff_getElem?_eq_some.mp he]
    rfl
  simpa using h e.1 hmem

/-- The last state is the state at `t` with the later updates on top. -/
theorem foldAll_eq_foldl_later (t : Nat) : foldAll apply init tl =
      (tl.toList.filter (t < ·.1)).foldl (fun s e => apply e.2 s) (foldUpTo apply init tl t) := by
  have hsplit : tl.toList = tl.toList.filter (·.1 ≤ t) ++ tl.toList.filter (t < ·.1) := by
    apply sorted_ext (sorted_toList tl)
    · rw [pairwise_append]
      refine ⟨(sorted_toList tl).filter _, (sorted_toList tl).filter _, ?_⟩
      intro e he f hf
      exact lt_of_le_of_lt (mem_filter_toList.mp he).2 (by simpa using (List.mem_filter.mp hf).2)
    · intro e
      rw [mem_append, List.mem_filter, List.mem_filter, ← and_or_left]
      simp [le_or_gt]
  unfold foldAll foldUpTo
  rw [← foldl_append, ← hsplit]

/-- The next update: nothing happens strictly between `t` and `u`. -/
theorem foldUpTo_next {u : Nat} {b : β} (htu : t < u) (hgap : ∀ v, t < v → v < u → tl[v]? = none)
    (hu : tl[u]? = some b) :
    foldUpTo apply init tl u = apply b (foldUpTo apply init tl t) := by
  have hsplit : tl.toList.filter (·.1 ≤ u) = tl.toList.filter (·.1 ≤ t) ++ [(u, b)] := by
    apply sorted_ext ((sorted_toList tl).filter _)
    · rw [pairwise_append]
      refine ⟨(sorted_toList tl).filter _, pairwise_singleton _ _, ?_⟩
      intro e he f hf
      obtain rfl := mem_singleton.mp hf
      exact lt_of_le_of_lt (mem_filter_toList.mp he).2 htu
    · intro e
      rw [mem_append, mem_filter_toList, mem_filter_toList, mem_singleton]
      constructor
      · rintro ⟨h1, h2⟩
        by_cases het : e.1 ≤ t
        · exact .inl ⟨h1, het⟩
        · rcases Nat.lt_or_eq_of_le h2 with hlt | heq
          · rw [hgap e.1 (not_le.mp het) hlt] at h1
            cases h1
          · rw [heq, hu] at h1
            cases h1
            exact .inr (Prod.ext heq rfl)
      · rintro (⟨h1, h2⟩ | rfl)
        · exact ⟨h1, h2.trans (Nat.le_of_lt htu)⟩
        · exact ⟨hu, le_rfl⟩
  unfold foldUpTo
  rw [hsplit, foldl_append]
  rfl

end Timeline
