import BoltDB.Lib.Transition
import BoltDB.Replication.TsSource

/-!
# Runs of the commit timestamp source

`TsSource` counts in `Nat`. The fields of the source are `uint64`, so this module first repeats the
methods on 64-bit words (`Word`), shows that they agree with the `Nat` source as long as the counter
does not pass `2^64`, and then follows arbitrary sequences of calls: what was handed out, what was
released, and where the watermark and the discard mark stand at every moment.
-/

namespace BoltDB.Replication

open Transition List Finset UInt64

/-! ## The source on 64-bit words -/

/-- The fields of `tsSource` as the source declares them. -/
structure Word where
  next : UInt64
  pending : Finset UInt64
  done : UInt64
  discarded : UInt64
  deriving DecidableEq

namespace Word

/-- `newTSSource` followed by `Init` on a database whose largest version is `maxVersion`. -/
def init (maxVersion : UInt64) : Word :=
  { next := maxVersion + 1, pending := ∅, done := 0, discarded := 0 }

/-- `Begin`. -/
def beginTs (t : Word) : UInt64 × Word :=
  (t.next, { t with next := t.next + 1, pending := insert t.next t.pending })

/-- The loop of `End`. Each round moves `done` one step towards `next`, so `next` rounds are
enough for it to stop by itself. -/
def advance (next : UInt64) (pending : Finset UInt64) : Nat → UInt64 → UInt64
  | 0, done => done
  | fuel + 1, done =>
    if done + 1 < next then
      if done + 1 ∈ pending then done else advance next pending fuel (done + 1)
    else done

/-- `End`. -/
def endTs (t : Word) (ts : UInt64) : Word :=
  { t with
    pending := t.pending.erase ts
    done := advance t.next (t.pending.erase ts) t.next.toNat t.done }

/-- `AdvanceDiscard`. -/
def advanceDiscard (t : Word) : UInt64 × Word :=
  if t.discarded < t.done then (t.done, { t with discarded := t.done }) else (0, t)

end Word

/-! ## Agreement with the `Nat` source -/

/-- The words of `w` are the numbers of `t`. -/
structure Agrees (w : Word) (t : TsSource) : Prop where
  next : w.next.toNat = t.next
  done : w.done.toNat = t.done
  discarded : w.discarded.toNat = t.discarded
  pending : ∀ p : UInt64, p ∈ w.pending ↔ p.toNat ∈ t.pending

namespace Agrees

variable {w : Word} {t : TsSource}

theorem toNat_succ {a b : UInt64} (h : a.toNat < b.toNat) : (a + 1).toNat = a.toNat + 1 := by
  have hb := b.toNat_lt
  rw [UInt64.toNat_add, Nat.mod_eq_of_lt]
  · rfl
  · show a.toNat + 1 < 2 ^ 64
    omega

theorem init {maxVersion : UInt64} (h : maxVersion.toNat + 1 < 2 ^ 64) :
    Agrees (Word.init maxVersion) (TsSource.init maxVersion.toNat) where
  next := by
    show (maxVersion + 1).toNat = maxVersion.toNat + 1
    exact Nat.mod_eq_of_lt h
  done := rfl
  discarded := rfl
  pending p := by simp [Word.init]

theorem beginTs (h : Agrees w t) (hnext : t.next + 1 < 2 ^ 64) : Agrees w.beginTs.2 t.beginTs where
  __ := h
  next := by
    show (w.next + 1).toNat = t.next + 1
    rw [UInt64.toNat_add, h.next]
    exact Nat.mod_eq_of_lt hnext
  pending p := by
    show p ∈ insert w.next w.pending ↔ p.toNat ∈ insert t.next t.pending
    rw [mem_insert, mem_insert, h.pending, ← h.next, UInt64.toNat_inj]

/-- Below `next` the two loops take the same rounds. -/
theorem advance {next : UInt64} {pending : Finset UInt64} {pending' : Finset Nat}
    (hp : ∀ p : UInt64, p ∈ pending ↔ p.toNat ∈ pending') (fuel : Nat) {done : UInt64}
    (hlt : done.toNat < next.toNat) :
    (Word.advance next pending fuel done).toNat =
      TsSource.advance next.toNat pending' fuel done.toNat := by
  induction fuel generalizing done with
  | zero => rfl
  | succ fuel ih =>
    have hsucc := toNat_succ hlt
    unfold Word.advance TsSource.advance
    simp only [lt_iff_toNat_lt, hp, hsucc]
    split
    · split
      · rfl
      · rw [← hsucc]
        exact ih (by omega)
    · rfl

theorem endTs (h : Agrees w t) (ts : UInt64) : Agrees (w.endTs ts) (t.endTs ts.toNat) := by
  have hp : ∀ p : UInt64, p ∈ w.pending.erase ts ↔ p.toNat ∈ t.pending.erase ts.toNat := by
    intro p
    rw [mem_erase, mem_erase, h.pending, ne_eq, ne_eq, UInt64.toNat_inj]
  refine ⟨h.next, ?_, h.discarded, hp⟩
  have hlt : w.done.toNat < w.next.toNat := by
    rw [h.done, h.next]; exact t.done_lt_next
  show (Word.advance w.next _ w.next.toNat w.done).toNat = TsSource.advance t.next _ t.next t.done
  rw [advance hp w.next.toNat hlt, h.next, h.done]

theorem advanceDiscard (h : Agrees w t) : Agrees w.advanceDiscard.2 t.advanceDiscard.2 := by
  have hiff : w.discarded < w.done ↔ t.discarded < t.done := by
    rw [lt_iff_toNat_lt, h.discarded, h.done]
  unfold Word.advanceDiscard TsSource.advanceDiscard
  by_cases hlt : t.discarded < t.done
  · rw [if_pos hlt, if_pos (hiff.mpr hlt)]
    exact ⟨h.next, h.done, h.done, h.pending⟩
  · rw [if_neg hlt, if_neg (fun hw => hlt (hiff.mp hw))]
    exact h

end Agrees

/-! ## Sequences of calls -/

/-- One call on the source; the mutex makes each of them one step. -/
inductive TsCall where
  | begin
  | end (ts : UInt64)
  | advanceDiscard
  deriving DecidableEq

/-- A source together with what its callers have seen: the timestamps `Begin` returned, newest
first, and those already passed to `End`. -/
structure Calls where
  source : Word
  returned : List UInt64
  ended : List UInt64

def Calls.start (maxVersion : UInt64) : Calls :=
  { source := .init maxVersion, returned := [], ended := [] }

/-- `End` takes a timestamp that `Begin` returned, and takes it once. -/
def Calls.step (c : Calls) : TsCall → Option Calls
  | .begin =>
    let (ts, source) := c.source.beginTs
    some { c with source := source, returned := ts :: c.returned }
  | .end ts =>
    if ts ∈ c.returned ∧ ts ∉ c.ended then
      some { c with source := c.source.endTs ts, ended := ts :: c.ended }
    else none
  | .advanceDiscard => some { c with source := c.source.advanceDiscard.2 }

/-- What holds between a history of calls and the `Nat` source it went through. -/
structure Calls.Inv (v : Nat) (c : Calls) (t : TsSource) : Prop where
  agrees : Agrees c.source t
  next_eq : t.next = v + 1 + c.returned.length
  below : ∀ ts ∈ c.returned, ts.toNat < t.next
  ended : c.ended ⊆ c.returned
  sorted : c.returned.Pairwise (· > ·)
  pending : ∀ p : UInt64, p ∈ c.source.pending ↔ p ∈ c.returned ∧ p ∉ c.ended
  maximal : c.ended ≠ [] → t.done + 1 < t.next → t.done + 1 ∈ t.pending

namespace Calls

variable {v : Nat} {c c' : Calls} {t : TsSource}

theorem length_returned {a : TsCall} (hstep : c.step a = some c') :
    c'.returned.length = c.returned.length + if a == .begin then 1 else 0 := by
  cases a with
  | begin => cases hstep; rfl
  | «end» ts =>
    simp only [Calls.step] at hstep
    split at hstep
    · cases hstep; rfl
    · cases hstep
  | advanceDiscard => cases hstep; rfl

theorem Inv.start {maxVersion : UInt64} (h : maxVersion.toNat + 1 < 2 ^ 64) :
    Inv maxVersion.toNat (start maxVersion) (TsSource.init maxVersion.toNat) where
  agrees := Agrees.init h
  next_eq := rfl
  below := by simp [Calls.start]
  ended := by simp [Calls.start]
  sorted := by simp [Calls.start]
  pending := by simp [Calls.start, Word.init]
  maximal := by simp [Calls.start]

theorem Inv.begin (h : Inv v c t) (hnext : t.next + 1 < 2 ^ 64)
    (hstep : c.step .begin = some c') : Inv v c' t.beginTs := by
  cases hstep
  have hfresh : ∀ ts ∈ c.returned, ts < c.source.next := by
    intro ts hts
    rw [lt_iff_toNat_lt, h.agrees.next]
    exact h.below ts hts
  have hbegin := h.agrees.beginTs hnext
  refine ⟨hbegin, ?_, ?_, ?_, ?_, ?_, ?_⟩
  · show t.next + 1 = v + 1 + (c.returned.length + 1)
    have := h.next_eq
    omega
  · intro ts hts
    show ts.toNat < t.next + 1
    rcases mem_cons.mp hts with heq | hold
    · rw [heq]
      show c.source.next.toNat < _
      rw [h.agrees.next]
      omega
    · have := h.below ts hold
      omega
  · exact subset_cons_of_subset _ h.ended
  · exact pairwise_cons.mpr ⟨hfresh, h.sorted⟩
  · intro p
    show p ∈ insert c.source.next c.source.pending ↔ p ∈ c.source.next :: c.returned ∧ p ∉ c.ended
    -- everything released was handed out before, so it lies below the fresh timestamp
    have hended : c.source.next ∉ c.ended := fun hmem =>
      absurd (hfresh _ (h.ended hmem)) (UInt64.lt_irrefl _)
    rw [mem_insert, h.pending]
    grind
  · intro hne hlt
    show t.done + 1 ∈ insert t.next t.pending
    rcases Nat.lt_or_ge (t.done + 1) t.next with hin | hout
    · exact Finset.mem_insert_of_mem (h.maximal hne hin)
    · have : t.done + 1 = t.next := by
        have := t.done_lt_next
        omega
      rw [this]
      exact Finset.mem_insert_self _ _

theorem Inv.end {ts : UInt64} (h : Inv v c t) (hstep : c.step (.end ts) = some c') :
    Inv v c' (t.endTs ts.toNat) := by
  simp only [Calls.step] at hstep
  split at hstep
  case isFalse => cases hstep
  case isTrue hts =>
    cases hstep
    refine ⟨h.agrees.endTs ts, h.next_eq, h.below, ?_, h.sorted, ?_, ?_⟩
    · exact cons_subset.mpr ⟨hts.1, h.ended⟩
    · intro p
      show p ∈ c.source.pending.erase ts ↔ p ∈ c.returned ∧ p ∉ ts :: c.ended
      rw [mem_erase, h.pending]
      grind
    · intro _ hlt
      exact t.endTs_done_maximal ts.toNat hlt

theorem Inv.advanceDiscard (h : Inv v c t) (hstep : c.step .advanceDiscard = some c') :
    Inv v c' t.advanceDiscard.2 := by
  cases hstep
  have hword : c.source.advanceDiscard.2.pending = c.source.pending := by
    unfold Word.advanceDiscard
    split <;> rfl
  have hagrees := h.agrees.advanceDiscard
  obtain ⟨hnext, hpending, hdone⟩ := t.advanceDiscard_frame
  refine ⟨hagrees, ?_, ?_, h.ended, h.sorted, ?_, ?_⟩
  · rw [hnext]; exact h.next_eq
  · rw [hnext]; exact h.below
  · intro p
    show p ∈ c.source.advanceDiscard.2.pending ↔ _
    rw [hword]
    exact h.pending p
  · rw [hnext, hpending, hdone]; exact h.maximal

/-- One call keeps the invariant and moves neither mark back. -/
theorem Inv.step {a : TsCall} (h : Inv v c t) (hstep : c.step a = some c')
    (hbound : a = .begin → t.next + 1 < 2 ^ 64) :
    ∃ t', Inv v c' t' ∧ t.done ≤ t'.done ∧ t.discarded ≤ t'.discarded := by
  cases a with
  | begin => exact ⟨_, h.begin (hbound rfl) hstep, le_rfl, le_rfl⟩
  | «end» ts => exact ⟨_, h.end hstep, t.done_le_endTs_done _, le_rfl⟩
  | advanceDiscard =>
    refine ⟨_, h.advanceDiscard hstep, t.advanceDiscard_frame.2.2.ge, ?_⟩
    exact t.discarded_le_advanceDiscard

/-- A run of calls keeps the invariant and moves neither mark back, as long as the timestamps it
hands out fit in a word. -/
theorem Inv.run {as : List TsCall} (h : Inv v c t) (hrun : Transition.run Calls.step c as = some c')
    (hbound : t.next + as.count .begin < 2 ^ 64) :
    ∃ t', Inv v c' t' ∧ t'.next = t.next + as.count .begin ∧
      t.done ≤ t'.done ∧ t.discarded ≤ t'.discarded := by
  induction as generalizing c t with
  | nil => cases hrun; exact ⟨t, h, rfl, le_rfl, le_rfl⟩
  | cons a as ih =>
    obtain ⟨c₁, hstep, hrest⟩ := run_cons_eq_some.mp hrun
    rw [count_cons] at hbound
    obtain ⟨t₁, h₁, hdone, hdisc⟩ := h.step hstep (by rintro rfl; simp at hbound; omega)
    have hnext : t₁.next = t.next + if a == .begin then 1 else 0 := by
      have hlen := length_returned hstep
      have := h₁.next_eq
      have := h.next_eq
      omega
    obtain ⟨t', h', hnext', hdone', hdisc'⟩ := ih h₁ hrest (by omega)
    refine ⟨t', h', ?_, hdone.trans hdone', hdisc.trans hdisc'⟩
    rw [count_cons]
    omega

/-- Once something was released, `done` is the largest value with nothing in flight up to it. -/
theorem Inv.isGreatest_done (h : Inv v c t) (hended : c.ended ≠ []) :
    IsGreatest {d | d < c.source.next ∧ ∀ p ∈ c.source.pending, d < p} c.source.done := by
  have hdone := h.agrees.done
  have hnext := h.agrees.next
  constructor
  · refine ⟨?_, fun p hp => ?_⟩
    · rw [lt_iff_toNat_lt, hdone, hnext]
      exact t.done_lt_next
    · rw [lt_iff_toNat_lt, hdone]
      exact (t.pending_mem _ ((h.agrees.pending p).mp hp)).1
  · rintro d ⟨hd, hfree⟩
    -- a larger `d` would have passed over `done + 1`, which is in flight
    by_contra hgt
    rw [le_iff_toNat_le] at hgt
    rw [lt_iff_toNat_lt] at hd
    have hsucc : (c.source.done + 1).toNat = t.done + 1 := by
      rw [Agrees.toNat_succ (b := d) (by omega), hdone]
    have hmem : c.source.done + 1 ∈ c.source.pending := by
      rw [h.agrees.pending, hsucc]
      exact h.maximal hended (by omega)
    have := hfree _ hmem
    rw [lt_iff_toNat_lt] at this
    omega

theorem Inv.discarded_lt (h : Inv v c t) {p : UInt64} (hp : p ∈ c.source.pending) :
    c.source.discarded < p := by
  rw [lt_iff_toNat_lt, h.agrees.discarded]
  exact t.discarded_le.trans_lt (t.pending_mem _ ((h.agrees.pending p).mp hp)).1

end Calls

/-- **The timestamp allocator.** Whatever version `Init` finds and in whatever order the calls
come, as long as the timestamps fit in a word: `Begin` returns ever larger timestamps; the pending
map holds exactly those handed out and not released; from the first `End` on, `done` is the
largest value below the counter with nothing in flight at or below it; between any two moments of
the run neither `done` nor the discard mark moves back; and nothing at or below the discard mark
is in flight. -/
theorem tsSource_calls (maxVersion : UInt64) (before after : List TsCall) (s t : Calls)
    (hbound : maxVersion.toNat + 1 + (before ++ after).count .begin < 2 ^ 64)
    (hs : run Calls.step (.start maxVersion) before = some s)
    (ht : run Calls.step s after = some t) :
    t.returned.Pairwise (· > ·) ∧
    (∀ p, p ∈ t.source.pending ↔ p ∈ t.returned ∧ p ∉ t.ended) ∧
    (t.ended ≠ [] →
      IsGreatest {d | d < t.source.next ∧ ∀ p ∈ t.source.pending, d < p} t.source.done) ∧
    s.source.done ≤ t.source.done ∧
    s.source.discarded ≤ t.source.discarded ∧
    ∀ p ∈ t.source.pending, t.source.discarded < p := by
  rw [count_append] at hbound
  have hinit : Calls.Inv maxVersion.toNat (.start maxVersion) _ := Calls.Inv.start (by omega)
  have hfirst : (TsSource.init maxVersion.toNat).next = maxVersion.toNat + 1 := rfl
  obtain ⟨s', hs', hnext, -, -⟩ := hinit.run hs (by omega)
  obtain ⟨t', ht', -, hdone, hdisc⟩ := hs'.run ht (by omega)
  refine ⟨ht'.sorted, ht'.pending, ht'.isGreatest_done, ?_, ?_, fun p => ht'.discarded_lt⟩
  · rw [le_iff_toNat_le, hs'.agrees.done, ht'.agrees.done]
    exact hdone
  · rw [le_iff_toNat_le, hs'.agrees.discarded, ht'.agrees.discarded]
    exact hdisc

/-- Two timestamps above version 4, released in the wrong order: the watermark waits for the
older one. -/
theorem tsSource_calls_out_of_order :
    let before : List TsCall := [.begin, .begin, .end 6]
    let after : List TsCall := [.advanceDiscard, .end 5, .advanceDiscard]
    ∃ s t, run Calls.step (.start 4) before = some s ∧ run Calls.step s after = some t ∧
      s.source.done = 4 ∧ t.source.done = 6 ∧ s.source.done ≤ t.source.done := by
  refine ⟨_, _, rfl, rfl, by decide, by decide, ?_⟩
  exact (tsSource_calls 4 [.begin, .begin, .end 6] [.advanceDiscard, .end 5, .advanceDiscard]
    _ _ (by decide) rfl rfl).2.2.2.1

end BoltDB.Replication
