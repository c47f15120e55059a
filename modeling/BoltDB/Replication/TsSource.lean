import Mathlib

/-!
# The commit timestamp source

`tsSource` (`internal/store/ts_source.go`) hands out the timestamps of managed-mode commits. It
keeps the next timestamp, the set of timestamps that were handed out and not yet released, and the
completed watermark `done`: the largest timestamp such that nothing at or below it is in flight.

The fields `done_lt_next`, `pending_mem` and `discarded_le` are what the mutex-protected methods
keep; they are part of the type, so no later proof has to carry them. Timestamps are `uint64` in
the source and `Nat` here: the counter grows by one per commit attempt.
-/

namespace BoltDB.Replication

structure TsSource where
  next : Nat
  pending : Finset Nat
  done : Nat
  discarded : Nat
  done_lt_next : done < next
  pending_mem : ∀ p ∈ pending, done < p ∧ p < next
  discarded_le : discarded ≤ done

namespace TsSource

/-- `newTSSource`: timestamps start at 1. -/
def new : TsSource where
  next := 1
  pending := ∅
  done := 0
  discarded := 0
  done_lt_next := by decide
  pending_mem := by simp
  discarded_le := by decide

/-- `newTSSource` followed by `Init`: allocation resumes above the largest committed version. Note
that `done` restarts at 0 and only moves with the next `End`. -/
def init (maxVersion : Nat) : TsSource where
  next := maxVersion + 1
  pending := ∅
  done := 0
  discarded := 0
  done_lt_next := by omega
  pending_mem := by simp
  discarded_le := by omega

/-- `Begin`: the timestamp handed out is `t.next`. -/
def beginTs (t : TsSource) : TsSource where
  next := t.next + 1
  pending := insert t.next t.pending
  done := t.done
  discarded := t.discarded
  done_lt_next := by have := t.done_lt_next; omega
  pending_mem := by
    intro p hp
    rcases Finset.mem_insert.mp hp with rfl | hp
    · exact ⟨t.done_lt_next, by omega⟩
    · have := t.pending_mem p hp; omega
  discarded_le := t.discarded_le

/-- The loop of `End`: raise `done` until the next timestamp is in flight or not handed out. The
first argument bounds the number of rounds. -/
def advance (next : Nat) (pending : Finset Nat) : Nat → Nat → Nat
  | 0, done => done
  | fuel + 1, done =>
    if done + 1 < next then
      if done + 1 ∈ pending then done else advance next pending fuel (done + 1)
    else done

section Advance

variable {next : Nat} {pending : Finset Nat}

theorem le_advance (fuel done : Nat) : done ≤ advance next pending fuel done := by
  induction fuel generalizing done with
  | zero => exact le_rfl
  | succ fuel ih =>
    unfold advance
    split
    · split
      · exact le_rfl
      · exact (Nat.le_succ done).trans (ih (done + 1))
    · exact le_rfl

theorem advance_lt_next {fuel done : Nat} (h : done < next) :
    advance next pending fuel done < next := by
  induction fuel generalizing done with
  | zero => exact h
  | succ fuel ih =>
    unfold advance
    split
    · split
      · exact h
      · exact ih ‹_›
    · exact h

/-- Everything the loop passes over was released. -/
theorem not_mem_of_le_advance {fuel done p : Nat} (hlo : done < p)
    (hhi : p ≤ advance next pending fuel done) : p ∉ pending := by
  induction fuel generalizing done with
  | zero => simp only [advance] at hhi; omega
  | succ fuel ih =>
    unfold advance at hhi
    split at hhi
    · split at hhi
      · omega
      · next hnot =>
        rcases Nat.lt_or_eq_of_le hlo with hlt | heq
        · exact ih hlt hhi
        · exact heq ▸ hnot
    · omega

/-- With enough rounds the loop stops only in front of a timestamp in flight or not handed out. -/
theorem advance_stops {fuel done : Nat} (hfuel : next ≤ done + fuel) :
    advance next pending fuel done + 1 < next → advance next pending fuel done + 1 ∈ pending := by
  induction fuel generalizing done with
  | zero => intro h; simp only [advance] at h; omega
  | succ fuel ih =>
    unfold advance
    split
    · split
      · intro _; assumption
      · exact ih (by omega)
    · intro h; contradiction

end Advance

/-- `End`: release `ts` and advance the completed watermark. -/
def endTs (t : TsSource) (ts : Nat) : TsSource where
  next := t.next
  pending := t.pending.erase ts
  done := advance t.next (t.pending.erase ts) t.next t.done
  discarded := t.discarded
  done_lt_next := advance_lt_next t.done_lt_next
  pending_mem := by
    intro p hp
    have hbound := t.pending_mem p (Finset.mem_of_mem_erase hp)
    refine ⟨?_, hbound.2⟩
    by_contra hle
    exact not_mem_of_le_advance hbound.1 (not_lt.mp hle) hp
  discarded_le := t.discarded_le.trans (le_advance _ _)

/-- `doneWater` and `SafeDiscard` both read the watermark. -/
def doneWater (t : TsSource) : Nat := t.done

/-- `AdvanceDiscard`: the value to hand to badger's `SetDiscardTs` (0 for none), and the source
with the value recorded. -/
def advanceDiscard (t : TsSource) : Nat × TsSource :=
  if t.discarded < t.done then
    (t.done, { t with discarded := t.done, discarded_le := le_rfl })
  else (0, t)

/-! ## Small equations -/

@[simp] theorem init_next (v : Nat) : (init v).next = v + 1 := rfl
@[simp] theorem init_pending (v : Nat) : (init v).pending = ∅ := rfl
@[simp] theorem init_done (v : Nat) : (init v).done = 0 := rfl
@[simp] theorem beginTs_next (t : TsSource) : t.beginTs.next = t.next + 1 := rfl
@[simp] theorem beginTs_pending (t : TsSource) : t.beginTs.pending = insert t.next t.pending := rfl
@[simp] theorem beginTs_done (t : TsSource) : t.beginTs.done = t.done := rfl
@[simp] theorem endTs_next (t : TsSource) (ts : Nat) : (t.endTs ts).next = t.next := rfl
@[simp] theorem endTs_pending (t : TsSource) (ts : Nat) :
    (t.endTs ts).pending = t.pending.erase ts := rfl

/-- A timestamp at or below the watermark is not in flight. -/
theorem not_mem_pending_of_le_done {t : TsSource} {p : Nat} (h : p ≤ t.done) : p ∉ t.pending :=
  fun hp => by have := (t.pending_mem p hp).1; omega

theorem done_le_endTs_done (t : TsSource) (ts : Nat) : t.done ≤ (t.endTs ts).done := le_advance _ _

/-- `AdvanceDiscard` writes the discard mark only. -/
theorem advanceDiscard_frame (t : TsSource) :
    t.advanceDiscard.2.next = t.next ∧ t.advanceDiscard.2.pending = t.pending ∧
      t.advanceDiscard.2.done = t.done := by
  unfold advanceDiscard
  split <;> exact ⟨rfl, rfl, rfl⟩

theorem discarded_le_advanceDiscard (t : TsSource) :
    t.discarded ≤ t.advanceDiscard.2.discarded := by
  unfold advanceDiscard
  split
  · exact t.discarded_le
  · exact le_rfl

/-- The watermark is the largest completed prefix: the next timestamp is in flight or was never
handed out. -/
theorem endTs_done_maximal (t : TsSource) (ts : Nat) (h : (t.endTs ts).done + 1 < t.next) :
    (t.endTs ts).done + 1 ∈ (t.endTs ts).pending :=
  advance_stops (by omega) h

end TsSource

end BoltDB.Replication
