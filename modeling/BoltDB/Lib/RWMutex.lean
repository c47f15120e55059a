import Mathlib

/-!
# A read-write lock that prefers writers

Processes of type `ι` take the lock in read mode together or in write mode alone. A process that asks
for it in write mode first queues for the place of the writer; once it has that place, new readers
stop and it waits for the readers that are inside. When it leaves, all stopped readers go in before the
next writer takes the place.

* `rLock`, `rUnlock`, `lock`, `announce`, `unlock` — the operations.
* `Waits` — who waits for whom.
* `acyclic` — with waits of another kind next to those on the lock there is no cycle, as long as no
  reader inside waits for another process while there is a writer.
-/

namespace RWMutex

open List

variable {ι : Type*}

structure State (ι : Type*) where
  /-- Processes that hold the lock in read mode. -/
  readers : List ι
  /-- Processes that asked for the lock in read mode and were stopped. -/
  waiting : List ι
  /-- The process that holds the lock in write mode, or does so once the readers have left. -/
  writer : Option ι
  /-- Processes that want the place of the writer. -/
  queue : List ι

namespace State

def init : State ι := ⟨[], [], none, []⟩

def rLock (m : State ι) (p : ι) : State ι :=
  if m.writer.isNone then { m with readers := p :: m.readers } else { m with waiting := p :: m.waiting }

def lock (m : State ι) (p : ι) : State ι := { m with queue := p :: m.queue }

def unlock (m : State ι) : State ι :=
  { m with readers := m.readers ++ m.waiting, waiting := [], writer := none }

section DecEq

variable [DecidableEq ι]

def rUnlock (m : State ι) (p : ι) : State ι := { m with readers := m.readers.erase p }

/-- `p` takes the place of the writer if it is free. -/
def announce (m : State ι) (p : ι) : Option (State ι) :=
  if p ∈ m.queue ∧ m.writer = none then some { m with writer := some p, queue := m.queue.erase p }
  else none

end DecEq

/-- Everyone who has to do with the lock. -/
def places (m : State ι) : List ι := m.writer.toList ++ m.readers ++ m.waiting ++ m.queue

/-- Every process stands in one place, and readers are stopped only by a writer. -/
structure WellFormed (m : State ι) : Prop where
  nodup : m.places.Nodup
  stopped : m.writer = none → m.waiting = []

theorem WellFormed.init : (init : State ι).WellFormed := ⟨nodup_nil, fun _ => rfl⟩

section Keep

variable {m m' : State ι} {p : ι}

theorem WellFormed.rLock (h : m.WellFormed) (hp : p ∉ m.places) : (m.rLock p).WellFormed := by
  have hnodup : (p :: m.places).Nodup := nodup_cons.mpr ⟨hp, h.nodup⟩
  rw [State.rLock]
  split
  case isTrue hw =>
    refine ⟨?_, h.stopped⟩
    rw [Option.isNone_iff_eq_none] at hw
    simpa [places, hw] using hnodup
  case isFalse hw =>
    refine ⟨?_, fun he => absurd he (by simpa using hw)⟩
    have hperm : (m.writer.toList ++ m.readers ++ p :: (m.waiting ++ m.queue)).Perm
        (p :: (m.writer.toList ++ m.readers ++ (m.waiting ++ m.queue))) := perm_middle
    rw [← append_assoc (m.writer.toList ++ m.readers) m.waiting] at hperm
    rw [places, append_assoc]
    exact hperm.nodup_iff.mpr hnodup

theorem WellFormed.lock (h : m.WellFormed) (hp : p ∉ m.places) : (m.lock p).WellFormed := by
  refine ⟨?_, h.stopped⟩
  exact perm_middle.nodup_iff.mpr (nodup_cons.mpr ⟨hp, h.nodup⟩)

theorem WellFormed.unlock (h : m.WellFormed) : m.unlock.WellFormed := by
  refine ⟨h.nodup.sublist ?_, fun _ => rfl⟩
  simp [places, State.unlock]

variable [DecidableEq ι]

theorem WellFormed.rUnlock (h : m.WellFormed) (p : ι) : (m.rUnlock p).WellFormed := by
  refine ⟨h.nodup.sublist ?_, h.stopped⟩
  exact ((List.Sublist.append_left erase_sublist _).append_right _).append_right _

theorem WellFormed.announce (h : m.WellFormed) (hm : m.announce p = some m') : m'.WellFormed := by
  obtain ⟨⟨hp, hw⟩, he⟩ := Option.ite_none_right_eq_some.mp hm
  cases he
  refine ⟨?_, nofun⟩
  have hperm : (p :: (m.readers ++ m.waiting ++ m.queue.erase p)).Perm m.places := by
    simp only [places, hw, Option.toList_none, nil_append]
    exact (perm_middle.symm).trans (List.Perm.append_left _ (perm_cons_erase hp).symm)
  exact hperm.nodup_iff.mpr h.nodup

omit [DecidableEq ι] in
/-- Who is stopped at the lock is not inside. -/
theorem WellFormed.outside (h : m.WellFormed) (hp : p ∈ m.waiting ∨ p ∈ m.queue) :
    p ∉ m.readers ∧ m.writer ≠ some p := by
  have hnodup := h.nodup
  simp only [places, nodup_append, mem_append, Option.mem_toList] at hnodup
  grind

omit [DecidableEq ι] in
theorem WellFormed.writer_not_reader (h : m.WellFormed) (hp : m.writer = some p) : p ∉ m.readers := by
  have hnodup := h.nodup
  simp only [places, nodup_append, mem_append, Option.mem_toList] at hnodup
  grind

end Keep

end State

/-- `p` cannot go on before `q` has left its place at the lock. -/
inductive Waits (m : State ι) : ι → ι → Prop
  | read {p q : ι} : p ∈ m.waiting → m.writer = some q → Waits m p q
  | place {p q : ι} : p ∈ m.queue → m.writer = some q → Waits m p q
  | write {p q : ι} : m.writer = some p → q ∈ m.readers → Waits m p q

/-- Along waits that go down a rank nobody waits for itself. -/
theorem not_transGen_self_of_rank {W : ι → ι → Prop} {rank : ι → Nat}
    (h : ∀ p q, W p q → rank q < rank p) (p : ι) : ¬ Relation.TransGen W p p := by
  intro hp
  have hlt : ∀ q r, Relation.TransGen W q r → rank r < rank q := by
    intro q r hqr
    induction hqr with
    | single hw => exact h _ _ hw
    | tail _ hw ih => exact Nat.lt_trans (h _ _ hw) ih
  exact Nat.lt_irrefl _ (hlt p p hp)

section Acyclic

variable {m : State ι} {B : ι → ι → Prop} {blocked : ι → Prop}

/-- Where a process stands in a chain of waits: readers that work, readers that are blocked, the
writer, processes stopped at the lock, processes blocked outside the lock. -/
noncomputable def rank (m : State ι) (blocked : ι → Prop) (p : ι) : Nat := open Classical in
  if p ∈ m.readers then (if blocked p then 1 else 0)
  else if m.writer = some p then 2
  else if p ∈ m.waiting ∨ p ∈ m.queue then 3
  else if blocked p then 4 else 0

/-- **No cycle of waits.** `B` are waits outside the lock: a blocked process, which is not stopped at
the lock, waits for one that is not blocked and does not want the lock in write mode. If no reader
inside is blocked while there is a writer, nobody waits for itself. -/
theorem acyclic (hm : m.WellFormed) (hB : ∀ p q, B p q → blocked p ∧ ¬ blocked q)
    (hblocked : ∀ p, blocked p → p ∉ m.waiting ∧ p ∉ m.queue ∧ m.writer ≠ some p)
    (hpush : ∀ p q, B p q → q ∉ m.queue)
    (hinside : ∀ p ∈ m.readers, blocked p → m.writer = none) (p : ι) :
    ¬ Relation.TransGen (fun p q => Waits m p q ∨ B p q) p p := by
  have hrank : ∀ p q, Waits m p q ∨ B p q → rank m blocked q < rank m blocked p := by
    rintro p q (hwait | hwait)
    · cases hwait with
      | read hp hq =>
        obtain ⟨hr, hw⟩ := hm.outside (.inl hp)
        grind [rank]
      | place hp hq =>
        obtain ⟨hr, hw⟩ := hm.outside (.inr hp)
        grind [rank]
      | write hp hq =>
        have hr := hm.writer_not_reader hp
        grind [rank]
    · obtain ⟨hp, hq⟩ := hB p q hwait
      by_cases hr : p ∈ m.readers
      · -- nobody is stopped here, so `q` works
        have hnone := hinside p hr hp
        have hstopped := hm.stopped hnone
        grind [rank]
      · grind [rank]
  exact not_transGen_self_of_rank hrank p

end Acyclic

end RWMutex
