import BoltDB.Lib.Transition

/-!
# Interleaved clients

Clients of type `ι` run programs on a shared state. A program is a sequence of atomic calls, each of
which may depend on what the earlier ones have seen; the environment supplies an input of type `τ` to
every call, such as the time. Between two calls of one client others may act.

* `step` — one call of one client.
* `Exclusive` — no other client stands between two of its calls.
* `Solo` — what a client does when it is alone.
* `exclusive_rule` — in runs of exclusive steps, what every client keeps on its own holds whenever no
  client is in the middle of its program.
-/

namespace Interleaving

open Transition Function

/-- A program; `next` sees the state that `effect` is applied to. -/
inductive Prog (τ σ β : Type)
  | ret (result : β)
  | call (effect : τ → σ → σ) (next : τ → σ → Prog τ σ β)

/-- How far a client is. -/
inductive Phase (τ σ β : Type)
  | waiting
  | running (rest : Prog τ σ β)
  | finished (result : β)

structure Config (ι τ σ β : Type) where
  state : σ
  phase : ι → Phase τ σ β

variable {ι τ σ β : Type}

/-- A call that returns what it has seen. -/
def Prog.perform {α : Type} (f : τ → σ → α × σ) (k : α → Prog τ σ β) : Prog τ σ β :=
  .call (fun t s => (f t s).2) fun t s => k (f t s).1

/-- The client is done as soon as nothing is left to call. -/
def Prog.phase : Prog τ σ β → Phase τ σ β
  | .ret b => .finished b
  | p => .running p

def Phase.todo (p : Prog τ σ β) : Phase τ σ β → Option (Prog τ σ β)
  | .waiting => some p
  | .running q => some q
  | .finished _ => none

def Phase.result : Phase τ σ β → Option β
  | .finished b => some b
  | _ => none

def Phase.isRunning : Phase τ σ β → Bool
  | .running _ => true
  | _ => false

theorem Phase.isRunning_eq_false {p : Phase τ σ β} : p.isRunning = false ↔ ∀ q, p ≠ .running q := by
  cases p <;> simp [isRunning]

def Config.init (s : σ) : Config ι τ σ β := ⟨s, fun _ => .waiting⟩

/-- What the clients that are done have returned. -/
def Config.result (c : Config ι τ σ β) (i : ι) : Option β := (c.phase i).result

/-- No client stands between two calls. -/
def Config.Quiet (c : Config ι τ σ β) : Prop := ∀ i p, c.phase i ≠ .running p

section Step

variable [DecidableEq ι]

def step (progs : ι → Prog τ σ β) (c : Config ι τ σ β) (l : ι × τ) : Option (Config ι τ σ β) :=
  match (c.phase l.1).todo (progs l.1) with
  | none => none
  | some (.ret b) => some { c with phase := Function.update c.phase l.1 (.finished b) }
  | some (.call effect next) =>
    some ⟨effect l.2 c.state, Function.update c.phase l.1 (next l.2 c.state).phase⟩

end Step

/-- No client but the one that acts stands between two calls. -/
def Exclusive (c : Config ι τ σ β) (l : ι × τ) : Prop := ∀ j, j ≠ l.1 → ∀ p, c.phase j ≠ .running p

instance [Fintype ι] [DecidableEq ι] (c : Config ι τ σ β) (l : ι × τ) : Decidable (Exclusive c l) :=
  decidable_of_iff (∀ j, j ≠ l.1 → (c.phase j).isRunning = false)
    (forall_congr' fun _ => imp_congr_right fun _ => Phase.isRunning_eq_false)

/-- A program that is left of another one when nobody else acts, for inputs that satisfy `ok`. -/
inductive Solo (ok : τ → Prop) : Prog τ σ β → σ → Prog τ σ β → σ → Prop
  | refl (p : Prog τ σ β) (s : σ) : Solo ok p s p s
  | call {p : Prog τ σ β} {s s' : σ} {effect : τ → σ → σ} {next : τ → σ → Prog τ σ β} {t : τ} :
      ok t → Solo ok p s (.call effect next) s' → Solo ok p s (next t s') (effect t s')

section Solo

variable {ok : τ → Prop} {p : Prog τ σ β} {s s' : σ} {b : β}

theorem solo_ret {p' : Prog τ σ β} (h : Solo ok (.ret b) s p' s') : p' = .ret b ∧ s' = s := by
  induction h with
  | refl => exact ⟨rfl, rfl⟩
  | call _ _ ih => cases ih.1

/-- A program that starts with a call has made it first. -/
theorem solo_cases {effect : τ → σ → σ} {next : τ → σ → Prog τ σ β} {q : Prog τ σ β}
    (h : Solo ok (.call effect next) s q s') :
    q = .call effect next ∧ s' = s ∨ ∃ t, ok t ∧ Solo ok (next t s) (effect t s) q s' := by
  induction h with
  | refl => exact .inl ⟨rfl, rfl⟩
  | call ht _ ih =>
    rcases ih with ⟨heq, rfl⟩ | ⟨t, ht', hsolo⟩
    · cases heq
      exact .inr ⟨_, ht, .refl _ _⟩
    · exact .inr ⟨t, ht', .call ht hsolo⟩

theorem solo_call {effect : τ → σ → σ} {next : τ → σ → Prog τ σ β}
    (h : Solo ok (.call effect next) s (.ret b) s') :
    ∃ t, ok t ∧ Solo ok (next t s) (effect t s) (.ret b) s' := by
  rcases solo_cases h with ⟨heq, _⟩ | hsolo
  · cases heq
  · exact hsolo

theorem solo_perform {α : Type} {f : τ → σ → α × σ} {k : α → Prog τ σ β}
    (h : Solo ok (.perform f k) s (.ret b) s') :
    ∃ t, ok t ∧ Solo ok (k (f t s).1) (f t s).2 (.ret b) s' := solo_call h

end Solo

/-! ## Exclusive runs -/

section Rule

variable [DecidableEq ι] {ok : τ → Prop} {progs : ι → Prog τ σ β}
  {I : σ → (ι → Option β) → Prop}

/-- Either no client is in the middle of its program, or one is, and has been alone since it
started. -/
def Serial (ok : τ → Prop) (progs : ι → Prog τ σ β) (I : σ → (ι → Option β) → Prop)
    (c : Config ι τ σ β) : Prop :=
  c.Quiet ∧ I c.state c.result ∨
    ∃ i p s, c.phase i = .running p ∧ (∀ j, j ≠ i → ∀ q, c.phase j ≠ .running q) ∧
      I s c.result ∧ Solo ok (progs i) s p c.state

theorem result_update (c : Config ι τ σ β) (i : ι) (s : σ) (ph : Phase τ σ β) :
    Config.result ⟨s, Function.update c.phase i ph⟩ = Function.update c.result i ph.result := by
  funext j
  by_cases hj : j = i
  · subst hj
    simp [Config.result]
  · simp [Config.result, hj]

variable {c : Config ι τ σ β}

section Invariant

variable (hI : ∀ s r i b s', I s r → r i = none → Solo ok (progs i) s (.ret b) s' →
  I s' (Function.update r i (some b)))

include hI

/-- A client that was alone, or has just started, makes a call. -/
theorem serial_of_solo {i : ι} {p : Prog τ σ β} {s₀ s : σ}
    (hothers : ∀ j, j ≠ i → ∀ q, c.phase j ≠ .running q) (hnone : c.result i = none)
    (h₀ : I s₀ c.result) (hsolo : Solo ok (progs i) s₀ p s) :
    Serial ok progs I ⟨s, Function.update c.phase i p.phase⟩ := by
  have hrest : ∀ j, j ≠ i → ∀ q, Function.update c.phase i p.phase j ≠ .running q :=
    fun j hj q => by rw [update_of_ne hj]; exact hothers j hj q
  cases p with
  | ret b =>
    refine .inl ⟨fun j q => ?_, ?_⟩
    · by_cases hj : j = i
      · subst hj
        simp [Prog.phase]
      · exact hrest j hj q
    · rw [result_update]
      exact hI s₀ c.result i b s h₀ hnone hsolo
  | call effect next =>
    refine .inr ⟨i, .call effect next, s₀, by simp [Prog.phase], hrest, ?_, hsolo⟩
    rw [result_update]
    have hsame : Function.update c.result i (Prog.call effect next).phase.result = c.result := by
      rw [update_eq_self_iff]
      exact hnone.symm
    rw [hsame]
    exact h₀

theorem serial_step {c' : Config ι τ σ β} {l : ι × τ} (hc : Serial ok progs I c)
    (hl : Exclusive c l) (ht : ok l.2) (hstep : step progs c l = some c') :
    Serial ok progs I c' := by
  -- the client that acts has been alone since a state in which `I` holds
  obtain ⟨p, s₀, htodo, hnone, h₀, hsolo⟩ : ∃ p s₀, (c.phase l.1).todo (progs l.1) = some p ∧
      c.result l.1 = none ∧ I s₀ c.result ∧ Solo ok (progs l.1) s₀ p c.state := by
    rcases hc with ⟨hquiet, h⟩ | ⟨i, p, s₀, hi, _, h, hsolo⟩
    · cases hphase : c.phase l.1 with
      | waiting => exact ⟨_, _, rfl, by rw [Config.result, hphase]; rfl, h, .refl _ _⟩
      | running q => exact absurd hphase (hquiet l.1 q)
      | finished b =>
        rw [step, hphase] at hstep
        cases hstep
    · by_cases hli : l.1 = i
      · subst hli
        exact ⟨p, s₀, by rw [hi]; rfl, by rw [Config.result, hi]; rfl, h, hsolo⟩
      · exact absurd hi (hl i (Ne.symm hli) p)
  unfold step at hstep
  rw [htodo] at hstep
  cases p with
  | ret b =>
    cases hstep
    exact serial_of_solo hI hl hnone h₀ hsolo
  | call effect next =>
    cases hstep
    exact serial_of_solo hI hl hnone h₀ (.call ht hsolo)

/-- **The rule for exclusive runs.** `I` relates the state to what the finished clients have
returned. -/
theorem exclusive_rule {s : σ} {as : List (ι × τ)} (h₀ : I s fun _ => none)
    (hok : Meets (step progs) (fun c l => Exclusive c l ∧ ok l.2) (.init s) as)
    (hrun : run (step progs) (.init s) as = some c) (hquiet : c.Quiet) : I c.state c.result := by
  have hinit : Serial ok progs I (.init s) := .inl ⟨fun i p => by simp [Config.init], h₀⟩
  rcases run_invariant (fun _ _ _ hc hl hstep => serial_step hI hc hl.1 hl.2 hstep) hinit hok hrun with
    ⟨_, h⟩ | ⟨i, p, _, hp, _⟩
  · exact h
  · exact absurd hp (hquiet i p)

end Invariant

omit [DecidableEq ι] in
theorem quiet_of_done (h : ∀ i, (c.result i).isSome) : c.Quiet := by
  intro i p hp
  have hi := h i
  rw [Config.result, hp] at hi
  cases hi

end Rule

/-! ## Counting results -/

/-- One more client is done. -/
theorem card_update [Fintype ι] [DecidableEq ι] {r : ι → Option β} {i : ι} (hi : r i = none) (b : β)
    (p : ι → Option β → Prop) [∀ j x, Decidable (p j x)] (hp : ¬ p i none) :
    (Finset.univ.filter fun j => p j (Function.update r i (some b) j)).card =
      (Finset.univ.filter fun j => p j (r j)).card + if p i (some b) then 1 else 0 := by
  have hother : ∀ j, j ≠ i → (p j (Function.update r i (some b) j) ↔ p j (r j)) := fun j hj => by
    rw [update_of_ne hj]
  have hself : ¬ p i (r i) := by rwa [hi]
  split
  · next hb =>
    have heq : (Finset.univ.filter fun j => p j (Function.update r i (some b) j)) =
        insert i (Finset.univ.filter fun j => p j (r j)) := by
      ext j
      by_cases hj : j = i
      · subst hj
        simpa using hb
      · simp [hj]
    rw [heq, Finset.card_insert_of_notMem (by simpa using hself)]
  · next hb =>
    congr 1
    ext j
    by_cases hj : j = i
    · subst hj
      simp [hb, hself]
    · simp [hother j hj]

end Interleaving
