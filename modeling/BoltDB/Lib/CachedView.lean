import BoltDB.Lib.Transition

/-!
# Cached views of shared data

Data of type `δ` is changed by the commits of writes. For every key there may be a cell with a table
that was built from the data, and a flag that says whether the table has to be built again. A write
marks the cells of keys, before or after its commits; a query takes a table from the cell of a key,
after building it if the cell is marked, or looks at the data itself. All of this happens in small
steps of many processes: the map of the cells is looked up apart from the use of a cell, and only
the lock of a cell keeps the marking of the cell and the building of its table apart.

* `Write`, `Query` — what a process does, as a tree that follows what it finds.
* `System.step` — one step of one process.
* `Write.Owed` — a write has still to mark a key.
* `coherent_run` — if each commit that changes a key is followed by a mark of that key, a query uses
  no table that is older than a write on its key that had returned when the query began.
-/

namespace CachedView

open Function Bool Function

variable {ι κ τ δ ν α γ ρ : Type}

/-- What a write does. `read` is the part of a transaction before its commit. -/
inductive Write (κ τ δ : Type)
  | done
  | read (next : τ → δ → Write κ τ δ)
  | commit (effect : τ → δ → δ) (next : τ → δ → Write κ τ δ)
  | mark (key : κ) (next : Write κ τ δ)
  | clear (next : Write κ τ δ)

/-- What a query does: it takes the table of a key, or looks at the data. -/
inductive Query (κ τ δ ν α : Type)
  | answer (a : α)
  | cached (key : κ) (next : ν → Query κ τ δ ν α)
  | view (next : τ → δ → Query κ τ δ ν α)

/-- The data as it was when something looked at it. -/
structure Snapshot (τ δ : Type) where
  version : Nat
  time : τ
  data : δ

/-- A cell, with the snapshot its table was built from. -/
structure Cell (ι κ τ δ ν : Type) where
  key : κ
  dirty : Bool
  table : ν
  holder : Option ι
  built : Option (Snapshot τ δ)

/-- How far a query is with the table it wants. -/
inductive Stage
  | start
  | absent
  | holds (cell : Nat)
  | stale (cell : Nat)
  | building (cell : Nat)
  | release (cell : Nat)

def Stage.cell : Stage → Option Nat
  | start | absent => none
  | holds p | stale p | building p | release p => some p

/-- A query under way: `before` are the commits of writes that had returned when it began, `used`
the snapshots it has used, the last one first. -/
structure Reader (κ τ δ ν α ρ : Type) where
  tag : ρ
  query : Query κ τ δ ν α
  stage : Stage
  before : Nat → Bool
  used : List (Snapshot τ δ)

/-- A write keeps the cell it has looked up for the mark it is at. -/
inductive Process (κ τ δ ν α γ ρ : Type)
  | idle
  | writing (tag : γ) (rest : Write κ τ δ) (found : Option Nat)
  | finished
  | asking (r : Reader κ τ δ ν α ρ)

/-- The writes, the queries and the tables of an application. -/
structure Application (κ τ δ ν α γ ρ : Type) where
  script : γ → Write κ τ δ
  query : ρ → Query κ τ δ ν α
  build : κ → τ → δ → ν
  blank : ν

/-- `hist n` is the data after `n` commits, the last of which is that of the process `author n` at
the time `time n`. -/
structure System (ι κ τ δ ν α γ ρ : Type) where
  version : Nat
  hist : Nat → δ
  author : Nat → ι
  time : Nat → τ
  map : κ → Option Nat
  fresh : Nat
  cells : Nat → Cell ι κ τ δ ν
  procs : ι → Process κ τ δ ν α γ ρ

inductive Act (τ γ ρ : Type)
  | write (tag : γ)
  | ask (tag : ρ)
  | go (now : τ)

namespace System

section Writing

variable [DecidableEq ι] (s : System ι κ τ δ ν α γ ρ)

def data : δ := s.hist s.version

def snapshot (now : τ) : Snapshot τ δ := ⟨s.version, now, s.data⟩

def setProc (i : ι) (p : Process κ τ δ ν α γ ρ) : System ι κ τ δ ν α γ ρ :=
  { s with procs := update s.procs i p }

def setCell (p : Nat) (c : Cell ι κ τ δ ν) : System ι κ τ δ ν α γ ρ :=
  { s with cells := update s.cells p c }

/-- The write with the `n`-th commit has returned. -/
def settled (n : Nat) : Bool := 0 < n && n ≤ s.version && match s.procs (s.author n) with
    | .finished => true
    | _ => false

def addCommit (i : ι) (now : τ) (d : δ) : System ι κ τ δ ν α γ ρ :=
  { s with
    version := s.version + 1
    hist := update s.hist (s.version + 1) d
    author := update s.author (s.version + 1) i
    time := update s.time (s.version + 1) now }

def stepWriting (i : ι) (now : τ) (tag : γ) :
    Write κ τ δ → Option Nat → Option (System ι κ τ δ ν α γ ρ)
  | .done, _ => some (s.setProc i .finished)
  | .read next, _ => some (s.setProc i (.writing tag (next now s.data) none))
  | .commit effect next, _ =>
    some ((s.addCommit i now (effect now s.data)).setProc i (.writing tag (next now s.data) none))
  | .mark key next, none =>
    match s.map key with
    | none => some (s.setProc i (.writing tag next none))
    | some p => some (s.setProc i (.writing tag (.mark key next) (some p)))
  | .mark _ next, some p =>
    if (s.cells p).holder.isSome then none
    else some ((s.setCell p { s.cells p with dirty := true }).setProc i (.writing tag next none))
  | .clear next, _ => some ({ s with map := fun _ => none }.setProc i (.writing tag next none))

end Writing

section Asking

variable [DecidableEq ι] [DecidableEq κ] (A : Application κ τ δ ν α γ ρ)
  (s : System ι κ τ δ ν α γ ρ)

/-- The cell of a key for a query that found none. -/
def create (key : κ) : System ι κ τ δ ν α γ ρ :=
  { s.setCell s.fresh ⟨key, true, A.blank, none, none⟩ with
    map := update s.map key (some s.fresh)
    fresh := s.fresh + 1 }

def setStage (i : ι) (r : Reader κ τ δ ν α ρ) (stage : Stage) : System ι κ τ δ ν α γ ρ :=
  s.setProc i (.asking { r with stage })

/-- The query goes on with the table of a cell. -/
def take (i : ι) (r : Reader κ τ δ ν α ρ) (next : ν → Query κ τ δ ν α) (p : Nat) :
    System ι κ τ δ ν α γ ρ :=
  s.setProc i (.asking { r with
    query := next (s.cells p).table
    stage := .start
    used := (s.cells p).built.toList ++ r.used })

def stepAsking (i : ι) (now : τ) (r : Reader κ τ δ ν α ρ) : Option (System ι κ τ δ ν α γ ρ) :=
  match r.query with
  | .answer _ => none
  | .view next => some (s.setProc i (.asking { r with
      query := next now s.data
      stage := .start
      used := s.snapshot now :: r.used }))
  | .cached key next =>
    match r.stage with
    | .start =>
      match s.map key with
      | none => some (s.setStage i r .absent)
      | some p => some (s.setStage i r (.holds p))
    | .absent =>
      -- looked up again under the lock of the map
      match s.map key with
      | none => some ((s.create A key).setStage i r (.holds s.fresh))
      | some p => some (s.setStage i r (.holds p))
    | .holds p =>
      if (s.cells p).holder.isSome then none
      else if (s.cells p).dirty then some (s.setStage i r (.stale p))
      else some (s.take i r next p)
    | .stale p =>
      if (s.cells p).holder.isSome then none
      else if (s.cells p).dirty then
        some ((s.setCell p { s.cells p with holder := some i }).setStage i r (.building p))
      else some (s.take i r next p)
    | .building p =>
      some ((s.setCell p { s.cells p with
        dirty := false
        table := A.build key now s.data
        built := some (s.snapshot now) }).setStage i r (.release p))
    | .release p =>
      some ((s.setCell p { s.cells p with holder := none }).take i r next p)

/-- One step of a process; a process that is idle starts a write or a query. -/
def step (l : ι × Act τ γ ρ) : Option (System ι κ τ δ ν α γ ρ) :=
  match l.2, s.procs l.1 with
  | .write tag, .idle => some (s.setProc l.1 (.writing tag (A.script tag) none))
  | .ask tag, .idle => some (s.setProc l.1 (.asking ⟨tag, A.query tag, .start, s.settled, []⟩))
  | .go now, .writing tag rest found => s.stepWriting l.1 now tag rest found
  | .go now, .asking r => s.stepAsking A l.1 now r
  | _, _ => none

end Asking

def init [Inhabited κ] (A : Application κ τ δ ν α γ ρ) (author : ι) (now : τ) (d : δ) :
    System ι κ τ δ ν α γ ρ where
  version := 0
  hist _ := d
  author _ := author
  time _ := now
  map _ := none
  fresh := 0
  cells _ := ⟨default, true, A.blank, none, none⟩
  procs _ := .idle

end System

/-! ## What a write has still to mark -/

/-- Whatever it finds, a write has still to mark a key, or to clear the map. -/
def Write.Owed (key : κ) : Write κ τ δ → Prop
  | .done => False
  | .read next => ∀ now d, (next now d).Owed key
  | .commit _ next => ∀ now d, (next now d).Owed key
  | .mark k next => k = key ∨ next.Owed key
  | .clear _ => True

/-- The same for a process and one cell of the key, which it may have looked up. -/
def Process.Owes (key : κ) (p : Nat) : Process κ τ δ ν α γ ρ → Prop
  | .writing _ (.mark _ next) (some q) => q = p ∨ next.Owed key
  | .writing _ rest _ => rest.Owed key
  | _ => False

@[simp] theorem Process.owes_writing (key : κ) (p : Nat) (tag : γ) (rest : Write κ τ δ) :
    (Process.writing tag rest none : Process κ τ δ ν α γ ρ).Owes key p ↔ rest.Owed key := by
  cases rest <;> rfl

/-- Every commit of a write changes, up to `Same`, only keys that the write has still to mark. -/
def Write.Covered (Same : κ → τ → δ → δ → Prop) : Write κ τ δ → Prop
  | .done => True
  | .read next => ∀ now d, (next now d).Covered Same
  | .commit effect next =>
    (∀ now d key, Same key now d (effect now d) ∨ (next now d).Owed key) ∧
      ∀ now d, (next now d).Covered Same
  | .mark _ next => next.Covered Same
  | .clear next => next.Covered Same

section Coherence

variable (A : Application κ τ δ ν α γ ρ)

/-- A query has come from one point to another by the use of some snapshots: those of tables are
`P`, those of the data itself `V`. -/
inductive Reading (P : κ → Snapshot τ δ → Prop) (V : List (Snapshot τ δ) → Snapshot τ δ → Prop) :
    List (Snapshot τ δ) → Query κ τ δ ν α → List (Snapshot τ δ) → Query κ τ δ ν α → Prop
  | refl (us : List (Snapshot τ δ)) (q : Query κ τ δ ν α) : Reading P V us q us q
  | cached {us us' : List (Snapshot τ δ)} {q' : Query κ τ δ ν α} {key : κ}
      {next : ν → Query κ τ δ ν α} {u : Snapshot τ δ} : P key u →
      Reading P V (u :: us) (next (A.build key u.time u.data)) us' q' →
      Reading P V us (.cached key next) us' q'
  | view {us us' : List (Snapshot τ δ)} {q' : Query κ τ δ ν α}
      {next : τ → δ → Query κ τ δ ν α} {u : Snapshot τ δ} : V us u →
      Reading P V (u :: us) (next u.time u.data) us' q' →
      Reading P V us (.view next) us' q'

variable {A} in
theorem Reading.mono {P P' : κ → Snapshot τ δ → Prop}
    {V : List (Snapshot τ δ) → Snapshot τ δ → Prop} {us us' : List (Snapshot τ δ)}
    {q q' : Query κ τ δ ν α} (h : Reading A P V us q us' q') (hP : ∀ key u, P key u → P' key u) :
    Reading A P' V us q us' q' := by
  induction h with
  | refl us q => exact .refl us q
  | cached hu _ ih => exact .cached (hP _ _ hu) ih
  | view hu _ ih => exact .view hu ih

variable {A} in
theorem Reading.trans {P : κ → Snapshot τ δ → Prop}
    {V : List (Snapshot τ δ) → Snapshot τ δ → Prop} {us us' us'' : List (Snapshot τ δ)}
    {q q' q'' : Query κ τ δ ν α} (h : Reading A P V us q us' q')
    (h' : Reading A P V us' q' us'' q'') : Reading A P V us q us'' q'' := by
  induction h with
  | refl => exact h'
  | cached hu _ ih => exact .cached hu (ih h')
  | view hu _ ih => exact .view hu (ih h')

/-! ## The condition and the invariant -/

variable (Same : κ → τ → δ → δ → Prop) (Exempt : γ → Prop) (ok : κ → τ → δ → Prop)
  (okView : ρ → List (Snapshot τ δ) → Snapshot τ δ → Prop)

section State

variable (s : System ι κ τ δ ν α γ ρ)

/-- The `n`-th commit changed the data of a key. -/
def System.Changed (key : κ) (n : Nat) : Prop := ¬ Same key (s.time n) (s.hist (n - 1)) (s.hist n)

/-- The condition on a step: a commit changes only keys that the write has still to mark, which is
so for all commits of a write that is not exempt, and tables and views are of data as they should
be. -/
def Allowed (l : ι × Act τ γ ρ) : Prop :=
  match l.2, s.procs l.1 with
  | .write tag, _ => Exempt tag ∨ (A.script tag).Covered Same
  | .go now, .writing tag (.commit effect next) _ =>
    Exempt tag → ∀ key, Same key now s.data (effect now s.data) ∨ (next now s.data).Owed key
  | .go now, .asking r =>
    match r.query, r.stage with
    | .cached key _, .building _ => ok key now s.data
    | .view _, _ => okView r.tag r.used (s.snapshot now)
    | _, _ => True
  | _, _ => True

/-- A snapshot that a query may use for a key: it is of the data of some version, and no write that
had returned when the query began changed the key later. -/
structure Admissible (before : Nat → Bool) (key : κ) (u : Snapshot τ δ) : Prop where
  le : u.version ≤ s.version
  data : s.hist u.version = u.data
  ok : ok key u.time u.data
  current : ∀ n, before n = true → s.Changed Same key n → n ≤ u.version

/-- The table of a cell that is not marked is that of a snapshot. -/
structure Built (c : Cell ι κ τ δ ν) (u : Snapshot τ δ) : Prop where
  built : c.built = some u
  le : u.version ≤ s.version
  data : s.hist u.version = u.data
  ok : ok c.key u.time u.data
  table : c.table = A.build c.key u.time u.data

/-- What a query that has looked up a cell for a key may rely on. -/
structure Current (before : Nat → Bool) (key : κ) (p : Nat) : Prop where
  fresh : p < s.fresh
  keyed : (s.cells p).key = key
  current : (s.cells p).dirty = false → ∀ u, (s.cells p).built = some u →
    ∀ n, before n = true → s.Changed Same key n → n ≤ u.version

/-- What a process holds of a cell at a stage. -/
def Holds (i : ι) : Stage → Prop
  | .building p => p < s.fresh ∧ (s.cells p).holder = some i
  | .release p => p < s.fresh ∧ (s.cells p).holder = some i ∧ (s.cells p).dirty = false
  | _ => True

structure ReaderInv (i : ι) (r : Reader κ τ δ ν α ρ) : Prop where
  settled : ∀ n, r.before n = true → s.settled n = true
  reading : Reading A (Admissible Same ok s r.before) (okView r.tag) [] (A.query r.tag) r.used
    r.query
  cell : ∀ key next p, r.query = .cached key next → r.stage.cell = some p →
    Current Same s r.before key p
  holds : Holds s i r.stage

/-- A commit that a clean cell does not know of is that of a write which has still to mark it. -/
structure Inv : Prop where
  cells : ∀ p, (s.cells p).dirty = false → ∃ u, Built A ok s (s.cells p) u
  map : ∀ key p, s.map key = some p → p < s.fresh ∧ (s.cells p).key = key
  owed : ∀ key p u n, s.map key = some p → (s.cells p).dirty = false → (s.cells p).built = some u →
    u.version < n → n ≤ s.version → s.Changed Same key n → (s.procs (s.author n)).Owes key p
  readers : ∀ i r, s.procs i = .asking r → ReaderInv A Same ok okView s i r
  scripts : ∀ i tag rest found, s.procs i = .writing tag rest found → Exempt tag ∨ rest.Covered Same

end State

/-- What a step of one process leaves of the rest. -/
structure Progress (i : ι) (s s' : System ι κ τ δ ν α γ ρ) : Prop where
  version : s.version ≤ s'.version
  hist : ∀ n ≤ s.version, s'.hist n = s.hist n
  time : ∀ n ≤ s.version, s'.time n = s.time n
  author : ∀ n ≤ s.version, s'.author n = s.author n
  fresh : s.fresh ≤ s'.fresh
  active : s.procs i ≠ .finished
  others : ∀ j, j ≠ i → s'.procs j = s.procs j
  key : ∀ p < s.fresh, (s'.cells p).key = (s.cells p).key
  built : ∀ p < s.fresh, (s'.cells p).dirty = false →
    (s.cells p).dirty = false ∧ (s'.cells p).built = (s.cells p).built ∨
    ∃ u, (s'.cells p).built = some u ∧ s.version ≤ u.version
  held : ∀ p < s.fresh, ∀ j, j ≠ i → (s.cells p).holder = some j →
    (s'.cells p).holder = some j ∧ (s'.cells p).dirty = (s.cells p).dirty

namespace Progress

variable {Same ok okView} {i : ι} {s s' : System ι κ τ δ ν α γ ρ} (h : Progress i s s')

include h

theorem changed {key : κ} {n : Nat} (hn : n ≤ s.version) :
    s'.Changed Same key n ↔ s.Changed Same key n := by
  rw [System.Changed, System.Changed, h.time n hn, h.hist n hn, h.hist (n - 1) (by omega)]

theorem settled {n : Nat} (hn : s.settled n = true) : s'.settled n = true := by
  simp only [System.settled, and_eq_true, decide_eq_true_eq] at hn ⊢
  obtain ⟨⟨hpos, hle⟩, hproc⟩ := hn
  refine ⟨⟨hpos, hle.trans h.version⟩, ?_⟩
  rw [h.author n hle]
  by_cases hi : s.author n = i
  · rw [hi] at hproc
    split at hproc
    · next hfin => exact absurd hfin h.active
    · cases hproc
  · rwa [h.others _ hi]

end Progress

theorem le_of_settled {s : System ι κ τ δ ν α γ ρ} {n : Nat} (h : s.settled n = true) :
    n ≤ s.version := by
  simp only [System.settled, and_eq_true, decide_eq_true_eq] at h
  exact h.1.2

section Keep

variable {A Same Exempt ok okView} {i : ι} {s s' : System ι κ τ δ ν α γ ρ} {before : Nat → Bool}
  {key : κ}

theorem Admissible.mono {u : Snapshot τ δ} (hb : ∀ n, before n = true → s.settled n = true)
    (h : Progress i s s') (hu : Admissible Same ok s before key u) :
    Admissible Same ok s' before key u where
  le := hu.le.trans h.version
  data := (h.hist _ hu.le).trans hu.data
  ok := hu.ok
  current n hn hch := hu.current n hn ((h.changed (le_of_settled (hb n hn))).mp hch)

theorem Built.mono {c : Cell ι κ τ δ ν} {u : Snapshot τ δ} (h : Progress i s s')
    (hu : Built A ok s c u) : Built A ok s' c u where
  __ := hu
  le := hu.le.trans h.version
  data := (h.hist _ hu.le).trans hu.data

theorem Current.mono {p : Nat} (hb : ∀ n, before n = true → s.settled n = true)
    (h : Progress i s s') (hc : Current Same s before key p) : Current Same s' before key p where
  fresh := hc.fresh.trans_le h.fresh
  keyed := (h.key p hc.fresh).trans hc.keyed
  current hd u hu n hn hch := by
    have hle := le_of_settled (hb n hn)
    rcases h.built p hc.fresh hd with ⟨hold, hsame⟩ | ⟨u', hu', hver⟩
    · exact hc.current hold u (hsame ▸ hu) n hn ((h.changed hle).mp hch)
    · obtain rfl : u' = u := Option.some.inj (hu'.symm.trans hu)
      exact hle.trans hver

/-- A query keeps its invariant as long as it keeps what it holds. -/
theorem ReaderInv.mono {j : ι} {r : Reader κ τ δ ν α ρ} {stage : Stage} (h : Progress i s s')
    (hr : ReaderInv A Same ok okView s j r) (hstage : stage.cell = r.stage.cell)
    (hholds : Holds s' j stage) : ReaderInv A Same ok okView s' j { r with stage } where
  settled n hn := h.settled (hr.settled n hn)
  reading := hr.reading.mono fun _ _ hu => hu.mono hr.settled h
  cell key next p hq hp := (hr.cell key next p hq (hstage ▸ hp)).mono hr.settled h
  holds := hholds

theorem Holds.other {j : ι} {stage : Stage} (hj : j ≠ i) (h : Progress i s s')
    (hs : Holds s j stage) : Holds s' j stage := by
  cases stage with
  | building p =>
    obtain ⟨hp, hholder⟩ := hs
    exact ⟨hp.trans_le h.fresh, (h.held p hp j hj hholder).1⟩
  | release p =>
    obtain ⟨hp, hholder, hdirty⟩ := hs
    obtain ⟨hholder', hsame⟩ := h.held p hp j hj hholder
    exact ⟨hp.trans_le h.fresh, hholder', hsame.trans hdirty⟩
  | _ => trivial

/-- **The step rule.** It is enough to look at the process that moves, at the cells it writes and at
the commit it makes. -/
theorem Inv.step (hi : Inv A Same Exempt ok okView s) (h : Progress i s s')
    (hcells : ∀ p, (s'.cells p).dirty = false →
      s'.cells p = s.cells p ∨ ∃ u, Built A ok s' (s'.cells p) u)
    (hmap : ∀ key p, s'.map key = some p → s.map key = some p ∨
      p < s'.fresh ∧ (s'.cells p).key = key ∧ (s'.cells p).dirty = true)
    (howes : ∀ key p, s'.map key = some p → (s.procs i).Owes key p →
      (s'.procs i).Owes key p ∨ (s'.cells p).dirty = true)
    (hnew : ∀ key p n, s.version < n → n ≤ s'.version → s'.Changed Same key n →
      (s'.procs (s'.author n)).Owes key p)
    (hreader : ∀ r, s'.procs i = .asking r → ReaderInv A Same ok okView s' i r)
    (hscript : ∀ tag rest found, s'.procs i = .writing tag rest found →
      Exempt tag ∨ rest.Covered Same) :
    Inv A Same Exempt ok okView s' where
  cells p hd := by
    rcases hcells p hd with hsame | hbuilt
    · rw [hsame] at hd ⊢
      obtain ⟨u, hu⟩ := hi.cells p hd
      exact ⟨u, hu.mono h⟩
    · exact hbuilt
  map key p hp := by
    rcases hmap key p hp with hold | ⟨hfresh, hkey, -⟩
    · obtain ⟨hfresh, hkey⟩ := hi.map key p hold
      exact ⟨hfresh.trans_le h.fresh, (h.key p hfresh).trans hkey⟩
    · exact ⟨hfresh, hkey⟩
  owed key p u n hp hd hu hlt hle hch := by
    by_cases hn : n ≤ s.version
    case neg => exact hnew key p n (by omega) hle hch
    rcases hmap key p hp with hold | ⟨-, -, hdirty⟩
    case inr =>
      rw [hdirty] at hd
      cases hd
    rcases h.built p (hi.map key p hold).1 hd with ⟨hclean, hsame⟩ | ⟨u', hu', hver⟩
    case inr =>
      obtain rfl : u' = u := Option.some.inj (hu'.symm.trans hu)
      omega
    have howner := hi.owed key p u n hold hclean (hsame ▸ hu) hlt hn ((h.changed hn).mp hch)
    rw [h.author n hn]
    by_cases hauthor : s.author n = i
    · rw [hauthor] at howner ⊢
      rcases howes key p hp howner with hnow | hdirty
      · exact hnow
      · rw [hdirty] at hd
        cases hd
    · rwa [h.others _ hauthor]
  readers j r hj := by
    by_cases hij : j = i
    · exact hij ▸ hreader r (hij ▸ hj)
    · rw [h.others j hij] at hj
      have hr := hi.readers j r hj
      exact hr.mono h rfl (hr.holds.other hij h)
  scripts j tag rest found hj := by
    by_cases hij : j = i
    · exact hscript tag rest found (hij ▸ hj)
    · rw [h.others j hij] at hj
      exact hi.scripts j tag rest found hj

/-- A cell that the map has now lacks no commit of a write that has returned. -/
theorem Inv.current (hi : Inv A Same Exempt ok okView s) {p : Nat} (hp : s.map key = some p)
    (hb : ∀ n, before n = true → s.settled n = true) :
    Current Same s before key p where
  fresh := (hi.map key p hp).1
  keyed := (hi.map key p hp).2
  current hd u hu n hn hch := by
    by_contra hlt
    have hset := hb n hn
    have howes := hi.owed key p u n hp hd hu (by omega) (le_of_settled hset) hch
    simp only [System.settled, and_eq_true] at hset
    split at hset
    · next hfin =>
      rw [hfin] at howes
      exact howes
    · cases hset.2

end Keep

/-! ## One lemma for each kind of step -/

section Steps

variable [DecidableEq ι] {A Same Exempt ok okView} {i : ι} {s : System ι κ τ δ ν α γ ρ}

section SetProc

variable (hact : s.procs i ≠ .finished) (q : Process κ τ δ ν α γ ρ)

include hact

theorem progress_setProc : Progress i s (s.setProc i q) where
  version := le_refl _
  hist _ _ := rfl
  time _ _ := rfl
  author _ _ := rfl
  fresh := le_refl _
  active := hact
  others _ hj := update_of_ne hj _ _
  key _ _ := rfl
  built _ _ hd := .inl ⟨hd, rfl⟩
  held _ _ _ _ hh := ⟨hh, rfl⟩

/-- Only the process itself moves. -/
theorem Inv.setProc (hi : Inv A Same Exempt ok okView s)
    (howes : ∀ key p, s.map key = some p → (s.procs i).Owes key p → q.Owes key p)
    (hreader : ∀ r, q = .asking r → ReaderInv A Same ok okView (s.setProc i q) i r)
    (hscript : ∀ tag rest found, q = .writing tag rest found → Exempt tag ∨ rest.Covered Same) :
    Inv A Same Exempt ok okView (s.setProc i q) := by
  have hself : (s.setProc i q).procs i = q := update_self ..
  refine hi.step (progress_setProc hact q) (fun p _ => .inl rfl) (fun key p hp => .inl hp)
    (fun key p hp ho => .inl ?_) (fun key p n hlt hle => absurd hle (Nat.not_le.mpr hlt)) ?_ ?_
  · rw [hself]
    exact howes key p hp ho
  · rw [hself]
    exact hreader
  · rw [hself]
    exact hscript

end SetProc

section SetCell

variable (hact : s.procs i ≠ .finished) (q : Process κ τ δ ν α γ ρ) {p : Nat}
  {c : Cell ι κ τ δ ν} (hkey : c.key = (s.cells p).key)
  (hbuilt : c.dirty = false → (s.cells p).dirty = false ∧ c.built = (s.cells p).built ∨
    ∃ u, c.built = some u ∧ s.version ≤ u.version)
  (hfree : ∀ j, (s.cells p).holder = some j → j = i)

include hact hkey hbuilt hfree

theorem progress_setCell : Progress i s ((s.setCell p c).setProc i q) where
  version := le_refl _
  hist _ _ := rfl
  time _ _ := rfl
  author _ _ := rfl
  fresh := le_refl _
  active := hact
  others _ hj := update_of_ne hj _ _
  key p' _ := by
    show (update s.cells p c p').key = _
    by_cases hp : p' = p
    · rw [hp, update_self, hkey]
    · rw [update_of_ne hp]
  built p' _ hd := by
    change (update s.cells p c p').dirty = false at hd
    show _ ∨ ∃ u, (update s.cells p c p').built = some u ∧ _
    by_cases hp : p' = p
    · subst hp
      rw [update_self] at hd ⊢
      refine (hbuilt hd).imp (fun h => ⟨h.1, ?_⟩) id
      show (update s.cells p' c p').built = _
      rw [update_self, h.2]
    · rw [update_of_ne hp] at hd
      refine .inl ⟨hd, ?_⟩
      show (update s.cells p c p').built = _
      rw [update_of_ne hp]
  held p' _ j hj hh := by
    have hp : p' ≠ p := fun hp => hj (hfree j (hp ▸ hh))
    show (update s.cells p c p').holder = _ ∧ (update s.cells p c p').dirty = _
    rw [update_of_ne hp]
    exact ⟨hh, rfl⟩

/-- The process writes a cell that no other process holds. -/
theorem Inv.setCell (hi : Inv A Same Exempt ok okView s)
    (hcell : c.dirty = false → ∃ u, Built A ok s c u)
    (howes : ∀ key p', s.map key = some p' → (s.procs i).Owes key p' →
      q.Owes key p' ∨ p' = p ∧ c.dirty = true)
    (hreader : ∀ r, q = .asking r → ReaderInv A Same ok okView ((s.setCell p c).setProc i q) i r)
    (hscript : ∀ tag rest found, q = .writing tag rest found → Exempt tag ∨ rest.Covered Same) :
    Inv A Same Exempt ok okView ((s.setCell p c).setProc i q) := by
  have h := progress_setCell hact q hkey hbuilt hfree
  have hself : ((s.setCell p c).setProc i q).procs i = q := update_self ..
  have hat : ∀ p', ((s.setCell p c).setProc i q).cells p' = if p' = p then c else s.cells p' :=
    fun p' => update_apply ..
  refine hi.step h (fun p' hd => ?_) (fun key p' hp' => .inl hp') (fun key p' hp' ho => ?_)
    (fun key p' n hlt hle => absurd hle (Nat.not_le.mpr hlt)) ?_ ?_
  · rw [hat] at hd ⊢
    split at hd
    · next hp =>
      rw [if_pos hp]
      obtain ⟨u, hu⟩ := hcell hd
      exact .inr ⟨u, hu.mono h⟩
    · next hp =>
      rw [if_neg hp]
      exact .inl rfl
  · rw [hself, hat]
    refine (howes key p' hp' ho).imp id ?_
    rintro ⟨rfl, hd⟩
    rw [if_pos rfl, hd]
  · rw [hself]
    exact hreader
  · rw [hself]
    exact hscript

end SetCell

section Writing

variable {tag : γ} {rest : Write κ τ δ} {found : Option Nat}
  (hproc : s.procs i = .writing tag rest found)

include hproc

omit [DecidableEq ι] in
theorem active_of_writing : s.procs i ≠ .finished := by
  rw [hproc]
  nofun

variable (hi : Inv A Same Exempt ok okView s)

include hi

variable {rest' : Write κ τ δ}

/-- A write that goes on without a commit or a mark. -/
theorem Inv.goesOn {found' : Option Nat}
    (hscript : Exempt tag ∨ rest'.Covered Same)
    (howes : ∀ key p, s.map key = some p →
      (Process.writing tag rest found : Process κ τ δ ν α γ ρ).Owes key p →
      (Process.writing tag rest' found' : Process κ τ δ ν α γ ρ).Owes key p) :
    Inv A Same Exempt ok okView (s.setProc i (.writing tag rest' found')) :=
  hi.setProc (active_of_writing hproc) _ (fun key p hp => hproc ▸ howes key p hp) nofun
    fun _ _ _ hq => by
      cases hq
      exact hscript

theorem Inv.commit {now : τ} {d : δ}
    (howes : ∀ key p, (Process.writing tag rest found : Process κ τ δ ν α γ ρ).Owes key p →
      rest'.Owed key)
    (hcovered : ∀ key, Same key now s.data d ∨ rest'.Owed key)
    (hscript : Exempt tag ∨ rest'.Covered Same) :
    Inv A Same Exempt ok okView ((s.addCommit i now d).setProc i (.writing tag rest' none)) := by
  have hself : ((s.addCommit i now d).setProc i (.writing tag rest' none)).procs i =
    .writing tag rest' none := update_self ..
  have hold : ∀ n ≤ s.version, n ≠ s.version + 1 := fun n hn => by omega
  refine hi.step (i := i) ?_ (fun p _ => .inl rfl) (fun key p hp => .inl hp)
    (fun key p _ ho => .inl ?_) (fun key p n hlt hle hch => ?_) ?_ ?_
  · exact {
      version := Nat.le_succ _
      hist := fun n hn => update_of_ne (hold n hn) _ _
      time := fun n hn => update_of_ne (hold n hn) _ _
      author := fun n hn => update_of_ne (hold n hn) _ _
      fresh := le_refl _
      active := active_of_writing hproc
      others := fun _ hj => update_of_ne hj _ _
      key := fun _ _ => rfl
      built := fun _ _ hd => .inl ⟨hd, rfl⟩
      held := fun _ _ _ _ hh => ⟨hh, rfl⟩ }
  · rw [hself, Process.owes_writing]
    exact howes key p (hproc ▸ ho)
  · obtain rfl : n = s.version + 1 := Nat.le_antisymm hle hlt
    have hauthor : ((s.addCommit i now d).setProc i (.writing tag rest' none)).author
        (s.version + 1) = i := update_self ..
    rw [hauthor, hself, Process.owes_writing]
    refine (hcovered key).resolve_left fun hsame => hch ?_
    show Same key (update s.time (s.version + 1) now (s.version + 1))
      (update s.hist (s.version + 1) d s.version)
      (update s.hist (s.version + 1) d (s.version + 1))
    rwa [update_self, update_self, update_of_ne (by omega)]
  · rw [hself]
    nofun
  · intro tag' rest'' found' hq
    rw [hself] at hq
    cases hq
    exact hscript

theorem Inv.clear (hscript : Exempt tag ∨ rest'.Covered Same) : Inv A Same Exempt ok okView
      ({ s with map := fun _ => none }.setProc i (.writing tag rest' none)) := by
  have hself : (({ s with map := fun _ => none } : System ι κ τ δ ν α γ ρ).setProc i
    (.writing tag rest' none)).procs i = .writing tag rest' none := update_self ..
  refine hi.step (i := i) ?_ (fun p _ => .inl rfl) nofun nofun
    (fun key p n hlt hle => absurd hle (Nat.not_le.mpr hlt)) ?_ ?_
  · exact { progress_setProc (active_of_writing hproc) (.writing tag rest' none) with }
  · rw [hself]
    nofun
  · intro tag' rest'' found' hq
    rw [hself] at hq
    cases hq
    exact hscript

theorem Inv.mark {p : Nat} (hfree : (s.cells p).holder.isSome = false)
    (hscript : Exempt tag ∨ rest'.Covered Same)
    (howes : ∀ key p', (Process.writing tag rest found : Process κ τ δ ν α γ ρ).Owes key p' →
      rest'.Owed key ∨ p' = p) :
    Inv A Same Exempt ok okView ((s.setCell p { s.cells p with dirty := true }).setProc i
      (.writing tag rest' none)) := by
  refine hi.setCell (active_of_writing hproc) _ rfl nofun (fun j hj => ?_) nofun
    (fun key p' _ ho => ?_) nofun fun tag' rest'' found' hq => ?_
  · rw [hj] at hfree
    cases hfree
  · rw [Process.owes_writing]
    exact (howes key p' (hproc ▸ ho)).imp id fun hp => ⟨hp, rfl⟩
  · cases hq
    exact hscript

/-- A step of a write. -/
theorem Inv.stepWriting {now : τ} {s' : System ι κ τ δ ν α γ ρ}
    (hallowed : Allowed A Same Exempt ok okView s (i, .go now))
    (hstep : s.stepWriting i now tag rest found = some s') :
    Inv A Same Exempt ok okView s' ∧ ∃ q, s'.procs = update s.procs i q := by
  have hscript := hi.scripts i tag rest found hproc
  cases rest with
  | done =>
    cases hstep
    refine ⟨hi.setProc (active_of_writing hproc) _ (fun key p _ ho => ?_) nofun nofun, _, rfl⟩
    rw [hproc] at ho
    exact ho
  | read next =>
    cases hstep
    exact ⟨hi.goesOn hproc (hscript.imp id fun hc => hc now s.data)
      fun key p _ ho => (Process.owes_writing ..).mpr (ho now s.data), _, rfl⟩
  | commit effect next =>
    cases hstep
    rw [Allowed, hproc] at hallowed
    refine ⟨hi.commit hproc (fun key p ho => ho now s.data) ?_
      (hscript.imp id fun hc => hc.2 now s.data), _, rfl⟩
    rcases hscript with hex | hc
    · exact hallowed hex
    · exact hc.1 now s.data
  | mark key next =>
    cases found with
    | none =>
      rw [System.stepWriting] at hstep
      cases hmap : s.map key with
      | none =>
        rw [hmap] at hstep
        cases hstep
        refine ⟨hi.goesOn hproc hscript fun key' p hp ho => (Process.owes_writing ..).mpr ?_, _, rfl⟩
        -- no cell of this key is in the map
        refine Or.resolve_left ho fun hkey => ?_
        rw [← hkey, hmap] at hp
        cases hp
      | some p =>
        rw [hmap] at hstep
        cases hstep
        refine ⟨hi.goesOn hproc hscript fun key' p' hp ho => ho.imp (fun hkey => ?_) id, _, rfl⟩
        rw [← hkey, hmap] at hp
        exact Option.some.inj hp
    | some p =>
      obtain ⟨hfree, hs'⟩ := Option.ite_none_left_eq_some.mp hstep
      cases hs'
      exact ⟨hi.mark hproc (eq_false_iff.mpr hfree) hscript
        fun key' p' ho => ho.symm.imp id Eq.symm, _, rfl⟩
  | clear next =>
    cases hstep
    exact ⟨hi.clear hproc hscript, _, rfl⟩

end Writing

section Asking

variable {r : Reader κ τ δ ν α ρ} (hproc : s.procs i = .asking r)

include hproc

omit [DecidableEq ι] in
theorem active_of_asking : s.procs i ≠ .finished := by
  rw [hproc]
  nofun

omit [DecidableEq ι] in
theorem not_owes_of_asking {key : κ} {p : Nat} : ¬ (s.procs i).Owes key p := by
  rw [hproc]
  exact id

variable (hi : Inv A Same Exempt ok okView s)

include hi

/-- A query goes on as a reader that keeps the invariant. -/
theorem Inv.asks {r' : Reader κ τ δ ν α ρ}
    (hr' : ReaderInv A Same ok okView (s.setProc i (.asking r')) i r') :
    Inv A Same Exempt ok okView (s.setProc i (.asking r')) := by
  refine hi.setProc (active_of_asking hproc) _
    (fun key p _ ho => absurd ho (not_owes_of_asking hproc)) (fun r'' h => ?_) nofun
  cases h
  exact hr'

/-- A query has used one more snapshot. -/
theorem Inv.uses {query : Query κ τ δ ν α} {used : List (Snapshot τ δ)}
    (hread : Reading A (Admissible Same ok s r.before) (okView r.tag) [] (A.query r.tag) used query) :
    Inv A Same Exempt ok okView (s.setProc i (.asking { r with query, stage := .start, used })) := by
  have hr := hi.readers i r hproc
  have h := progress_setProc (active_of_asking hproc) (.asking { r with query, stage := .start, used })
  exact hi.asks hproc ⟨fun n hn => h.settled (hr.settled n hn),
    hread.mono fun _ _ hu => hu.mono hr.settled h, nofun, trivial⟩

theorem Inv.view {now : τ} {next : τ → δ → Query κ τ δ ν α}
    (hq : r.query = .view next) (hok : okView r.tag r.used (s.snapshot now)) :
    Inv A Same Exempt ok okView (s.setProc i (.asking { r with
      query := next now s.data
      stage := .start
      used := s.snapshot now :: r.used })) := by
  have hread := (hi.readers i r hproc).reading
  rw [hq] at hread
  exact hi.uses hproc (hread.trans (.view hok (.refl ..)))

/-- A query that writes a cell it has looked up. -/
theorem Inv.writesCell {p : Nat} {c : Cell ι κ τ δ ν} {stage : Stage}
    (hstage : stage.cell = r.stage.cell) (hkey : c.key = (s.cells p).key)
    (hbuilt : c.dirty = false → (s.cells p).dirty = false ∧ c.built = (s.cells p).built ∨
      ∃ u, c.built = some u ∧ s.version ≤ u.version)
    (hfree : ∀ j, (s.cells p).holder = some j → j = i)
    (hcell : c.dirty = false → ∃ u, Built A ok s c u)
    (hholds : Holds ((s.setCell p c).setStage i r stage) i stage) :
    Inv A Same Exempt ok okView ((s.setCell p c).setStage i r stage) := by
  refine hi.setCell (active_of_asking hproc) _ hkey hbuilt hfree hcell
    (fun key p _ ho => absurd ho (not_owes_of_asking hproc)) (fun r' hr' => ?_) nofun
  cases hr'
  exact (hi.readers i r hproc).mono (progress_setCell (active_of_asking hproc) _ hkey hbuilt hfree)
    hstage hholds

section Cached

variable {key : κ} {next : ν → Query κ τ δ ν α} (hq : r.query = .cached key next)

include hq

/-- A query that only moves to another stage. -/
theorem Inv.moves {stage : Stage}
    (hcell : ∀ p, stage.cell = some p → Current Same s r.before key p)
    (hholds : ∀ p, stage ≠ .building p ∧ stage ≠ .release p) :
    Inv A Same Exempt ok okView (s.setStage i r stage) := by
  have hr := hi.readers i r hproc
  have h := progress_setProc (active_of_asking hproc) (.asking { r with stage })
  exact hi.asks hproc {
    settled := fun n hn => h.settled (hr.settled n hn)
    reading := hr.reading.mono fun _ _ hu => hu.mono hr.settled h
    cell := fun key' next' p hq' hp => by
      rw [hq] at hq'
      cases hq'
      exact (hcell p hp).mono hr.settled h
    holds := by
      cases stage with
      | building p => exact absurd rfl (hholds p).1
      | release p => exact absurd rfl (hholds p).2
      | _ => trivial }

/-- A query that goes on with the table of a clean cell it may rely on. -/
theorem Inv.take {p : Nat} (hcell : Current Same s r.before key p)
    (hclean : (s.cells p).dirty = false) : Inv A Same Exempt ok okView (s.take i r next p) := by
  obtain ⟨u, hu⟩ := hi.cells p hclean
  have hadm : Admissible Same ok s r.before key u :=
    ⟨hu.le, hu.data, hcell.keyed ▸ hu.ok, hcell.current hclean u hu.built⟩
  refine hi.uses hproc ?_
  rw [hu.built, hu.table, hcell.keyed]
  exact (hq ▸ (hi.readers i r hproc).reading).trans (.cached hadm (.refl ..))

/-- A query that has built the table of a cell gives the cell back. -/
theorem Inv.release {p : Nat} (hcell : Current Same s r.before key p)
    (hheld : (s.cells p).holder = some i) (hclean : (s.cells p).dirty = false) :
    Inv A Same Exempt ok okView
      ((s.setCell p { s.cells p with holder := none }).take i r next p) := by
  let q : Process κ τ δ ν α γ ρ := .asking { r with
    query := next (s.cells p).table
    stage := .start
    used := (s.cells p).built.toList ++ r.used }
  have htaken : Inv A Same Exempt ok okView (s.take i r next p) := hi.take hproc hq hcell hclean
  have hself : (s.take i r next p).procs i = q := update_self ..
  have hact := active_of_asking hself
  have hbuilt : (s.cells p).dirty = false → (s.cells p).dirty = false ∧
      (s.cells p).built = (s.cells p).built ∨
      ∃ u, (s.cells p).built = some u ∧ s.version ≤ u.version :=
    fun hd => .inl ⟨hd, rfl⟩
  have hfree : ∀ j, (s.cells p).holder = some j → j = i :=
    fun j hj => Option.some.inj (hj.symm.trans hheld)
  have h : Progress i (s.take i r next p)
      (((s.take i r next p).setCell p { s.cells p with holder := none }).setProc i q) :=
    progress_setCell hact q rfl hbuilt hfree
  have hdone : Inv A Same Exempt ok okView
      (((s.take i r next p).setCell p { s.cells p with holder := none }).setProc i q) := by
    refine htaken.setCell hact q rfl hbuilt hfree (fun hd => ?_)
      (fun _ _ _ ho => absurd ho (not_owes_of_asking hself)) (fun r' hr' => ?_) nofun
    · obtain ⟨u, hu⟩ := htaken.cells p hd
      exact ⟨u, { hu with }⟩
    · obtain rfl := Process.asking.inj hr'
      exact (htaken.readers i _ hself).mono h rfl trivial
  convert hdone using 1
  simp [System.take, System.setCell, System.setProc, q]

theorem Inv.create [DecidableEq κ] :
    Inv A Same Exempt ok okView ((s.create A key).setStage i r (.holds s.fresh)) := by
  have hr := hi.readers i r hproc
  let s' := (s.create A key).setStage i r (.holds s.fresh)
  have hself : s'.procs i = .asking { r with stage := .holds s.fresh } := update_self ..
  have hold : ∀ p, p ≠ s.fresh → s'.cells p = s.cells p := fun p hp => update_of_ne hp _ _
  have hcell : s'.cells s.fresh = ⟨key, true, A.blank, none, none⟩ := update_self ..
  have h : Progress i s s' := {
    version := le_refl _
    hist := fun _ _ => rfl
    time := fun _ _ => rfl
    author := fun _ _ => rfl
    fresh := Nat.le_succ _
    active := active_of_asking hproc
    others := fun _ hj => update_of_ne hj _ _
    key := fun p hp => by rw [hold p hp.ne]
    built := fun p hp hd => by
      rw [hold p hp.ne] at hd ⊢
      exact .inl ⟨hd, rfl⟩
    held := fun p hp j _ hh => by
      rw [hold p hp.ne]
      exact ⟨hh, rfl⟩ }
  refine hi.step (i := i) h (fun p hd => ?_) (fun key' p hp => ?_)
    (fun key' p _ ho => absurd ho (not_owes_of_asking hproc))
    (fun key p n hlt hle => absurd hle (Nat.not_le.mpr hlt)) (fun r' hr' => ?_)
    fun tag rest found hq' => absurd (hself.symm.trans hq') nofun
  · by_cases hp : p = s.fresh
    · subst hp
      change (s'.cells s.fresh).dirty = false at hd
      rw [hcell] at hd
      cases hd
    · exact .inl (hold p hp)
  · change update s.map key (some s.fresh) key' = some p at hp
    by_cases hk : key' = key
    · subst hk
      rw [update_self] at hp
      cases hp
      refine .inr ⟨Nat.lt_succ_self _, ?_⟩
      show (s'.cells s.fresh).key = key' ∧ (s'.cells s.fresh).dirty = true
      rw [hcell]
      exact ⟨rfl, rfl⟩
    · rw [update_of_ne hk] at hp
      exact .inl hp
  · rw [hself] at hr'
    cases hr'
    refine ⟨fun n hn => h.settled (hr.settled n hn),
      hr.reading.mono fun _ _ hu => hu.mono hr.settled h, fun key' next' p hq' hp => ?_, trivial⟩
    rw [hq] at hq'
    cases hq'
    cases hp
    refine ⟨Nat.lt_succ_self _, ?_, fun hd => ?_⟩
    · show (s'.cells s.fresh).key = key
      rw [hcell]
    · change (s'.cells s.fresh).dirty = false at hd
      rw [hcell] at hd
      cases hd

end Cached

/-- A step of a query. -/
theorem Inv.stepAsking [DecidableEq κ] {now : τ} {s' : System ι κ τ δ ν α γ ρ}
    (hallowed : Allowed A Same Exempt ok okView s (i, .go now))
    (hstep : s.stepAsking A i now r = some s') : Inv A Same Exempt ok okView s' ∧
      ∃ r', s'.procs = update s.procs i (.asking r') ∧ r'.tag = r.tag ∧ r'.before = r.before := by
  have hr := hi.readers i r hproc
  have hcurrent : ∀ {key next p}, r.query = .cached key next → s.map key = some p →
    Current Same s r.before key p := fun _ hp => hi.current hp hr.settled
  rw [Allowed, hproc] at hallowed
  dsimp only at hallowed
  rw [System.stepAsking] at hstep
  cases hq : r.query with
  | answer a =>
    rw [hq] at hstep
    cases hstep
  | view next =>
    rw [hq] at hstep hallowed
    cases hstep
    exact ⟨hi.view hproc hq hallowed, _, rfl, rfl, rfl⟩
  | cached key next =>
    rw [hq] at hstep hallowed
    dsimp only at hstep hallowed
    cases hs : r.stage with
    | start | absent =>
      rw [hs] at hstep
      cases hmap : s.map key with
      | none =>
        rw [hmap] at hstep
        cases hstep
        first
          | exact ⟨hi.moves hproc hq nofun fun _ => ⟨nofun, nofun⟩, _, rfl, rfl, rfl⟩
          | exact ⟨hi.create hproc hq, _, rfl, rfl, rfl⟩
      | some p =>
        rw [hmap] at hstep
        cases hstep
        refine ⟨hi.moves hproc hq (fun p' hp' => ?_) fun _ => ⟨nofun, nofun⟩, _, rfl, rfl, rfl⟩
        cases hp'
        exact hcurrent hq hmap
    | holds p =>
      have hcell := hr.cell key next p hq (by rw [hs, Stage.cell])
      rw [hs] at hstep
      obtain ⟨-, hstep⟩ := Option.ite_none_left_eq_some.mp hstep
      cases hd : (s.cells p).dirty with
      | true =>
        rw [hd] at hstep
        cases hstep
        refine ⟨hi.moves hproc hq (fun p' hp' => ?_) fun _ => ⟨nofun, nofun⟩, _, rfl, rfl, rfl⟩
        cases hp'
        exact hcell
      | false =>
        rw [hd] at hstep
        cases hstep
        exact ⟨hi.take hproc hq hcell hd, _, rfl, rfl, rfl⟩
    | stale p =>
      have hcell := hr.cell key next p hq (by rw [hs, Stage.cell])
      rw [hs] at hstep
      obtain ⟨hfree, hstep⟩ := Option.ite_none_left_eq_some.mp hstep
      cases hd : (s.cells p).dirty with
      | true =>
        rw [hd] at hstep
        cases hstep
        refine ⟨hi.writesCell hproc (by rw [hs]; rfl) rfl nofun (fun j hj => ?_) nofun
          ⟨hcell.fresh, ?_⟩, _, rfl, rfl, rfl⟩
        · rw [hj] at hfree
          exact absurd rfl hfree
        · show (update s.cells p _ p).holder = some i
          rw [update_self]
      | false =>
        rw [hd] at hstep
        cases hstep
        exact ⟨hi.take hproc hq hcell hd, _, rfl, rfl, rfl⟩
    | building p =>
      have hcell := hr.cell key next p hq (by rw [hs, Stage.cell])
      have hheld : p < s.fresh ∧ (s.cells p).holder = some i := by
        have hh := hr.holds
        rwa [hs] at hh
      rw [hs] at hstep hallowed
      cases hstep
      refine ⟨hi.writesCell hproc (by rw [hs]; rfl) rfl (fun _ => .inr ⟨_, rfl, le_refl _⟩)
        (fun j hj => Option.some.inj (hj.symm.trans hheld.2))
        (fun _ => ⟨s.snapshot now, rfl, le_refl _, rfl, ?_, ?_⟩) ⟨hcell.fresh, ?_⟩, _, rfl, rfl, rfl⟩
      · exact hcell.keyed ▸ hallowed
      · show A.build key now s.data = A.build (s.cells p).key now s.data
        rw [hcell.keyed]
      · show (update s.cells p _ p).holder = some i ∧
          (update s.cells p _ p).dirty = false
        rw [update_self]
        exact ⟨hheld.2, rfl⟩
    | release p =>
      have hcell := hr.cell key next p hq (by rw [hs, Stage.cell])
      have hheld : p < s.fresh ∧ (s.cells p).holder = some i ∧ (s.cells p).dirty = false := by
        have hh := hr.holds
        rwa [hs] at hh
      rw [hs] at hstep
      cases hstep
      exact ⟨hi.release hproc hq hcell hheld.2.1 hheld.2.2, _, rfl, rfl, rfl⟩

end Asking

end Steps

/-! ## Runs -/

variable [DecidableEq ι] [DecidableEq κ] {A Same Exempt ok okView}

omit [DecidableEq ι] [DecidableEq κ] in
theorem inv_init [Inhabited κ] (author : ι) (now : τ) (d : δ) :
    Inv A Same Exempt ok okView (System.init A author now d : System ι κ τ δ ν α γ ρ) :=
  ⟨nofun, nofun, nofun, nofun, nofun⟩

/-- A process asks a query, which began after some writes. -/
def System.Asks (i : ι) (q : ρ) (before : Nat → Bool) (s : System ι κ τ δ ν α γ ρ) : Prop :=
  ∃ r : Reader κ τ δ ν α ρ, s.procs i = .asking r ∧ r.tag = q ∧ r.before = before

variable {s s' : System ι κ τ δ ν α γ ρ}

omit [DecidableEq κ] in
/-- A query stays a query, with what it was asked and what had returned before it. -/
theorem System.Asks.update {i j : ι} {q : ρ} {before : Nat → Bool} {p : Process κ τ δ ν α γ ρ}
    (h : s.Asks i q before) (hprocs : s'.procs = update s.procs j p)
    (hself : ∀ r, s.procs j = .asking r → ∃ r', p = .asking r' ∧ r'.tag = r.tag ∧ r'.before = r.before) :
    s'.Asks i q before := by
  obtain ⟨r, hr, rfl, rfl⟩ := h
  by_cases hj : i = j
  · subst hj
    obtain ⟨r', rfl, htag, hbefore⟩ := hself r hr
    exact ⟨r', by rw [hprocs, update_self], htag, hbefore⟩
  · exact ⟨r, by rw [hprocs, update_of_ne hj, hr], rfl, rfl⟩

theorem inv_step {l : ι × Act τ γ ρ} (hi : Inv A Same Exempt ok okView s)
    (hallowed : Allowed A Same Exempt ok okView s l) (hstep : s.step A l = some s') :
    Inv A Same Exempt ok okView s' ∧ ∀ i q before, s.Asks i q before → s'.Asks i q before := by
  obtain ⟨i, a⟩ := l
  rw [System.step] at hstep
  cases hproc : s.procs i with
  | finished =>
    rw [hproc] at hstep
    cases a <;> cases hstep
  | writing tag rest found =>
    rw [hproc] at hstep
    cases a with
    | go now =>
      obtain ⟨hinv, p, hprocs⟩ := hi.stepWriting hproc hallowed hstep
      exact ⟨hinv, fun _ _ _ h => h.update hprocs (by rw [hproc]; nofun)⟩
    | write tag => cases hstep
    | ask tag => cases hstep
  | asking r =>
    rw [hproc] at hstep
    cases a with
    | go now =>
      obtain ⟨hinv, r', hprocs, hsame⟩ := hi.stepAsking hproc hallowed hstep
      refine ⟨hinv, fun _ _ _ h => h.update hprocs fun r₁ hr₁ => ⟨r', rfl, ?_⟩⟩
      rwa [← Process.asking.inj (hproc.symm.trans hr₁)]
    | write tag => cases hstep
    | ask tag => cases hstep
  | idle =>
    have hact : s.procs i ≠ .finished := by
      rw [hproc]
      nofun
    have howes : ∀ key p, ¬ (s.procs i).Owes key p := fun key p => by
      rw [hproc]
      exact id
    have hasks : ∀ p i' q before, s.Asks i' q before → (s.setProc i p).Asks i' q before :=
      fun p _ _ _ h => h.update rfl (by rw [hproc]; nofun)
    rw [hproc] at hstep
    cases a with
    | go now => cases hstep
    | write tag =>
      cases hstep
      refine ⟨hi.setProc hact _ (fun key p _ ho => absurd ho (howes key p)) nofun
        fun tag' rest found hq => ?_, hasks _⟩
      cases hq
      exact hallowed
    | ask tag =>
      cases hstep
      refine ⟨hi.setProc hact _ (fun key p _ ho => absurd ho (howes key p)) (fun r hr => ?_) nofun,
        hasks _⟩
      cases hr
      exact ⟨fun n hn => (progress_setProc hact _).settled hn, .refl .., nofun, trivial⟩

/-- The answer a process has. -/
def System.answer (s : System ι κ τ δ ν α γ ρ) (i : ι) : Option α :=
  match s.procs i with
  | .asking r =>
    match r.query with
    | .answer a => some a
    | _ => none
  | _ => none

omit [DecidableEq ι] [DecidableEq κ] in
theorem answer_eq_some {i : ι} {a : α} (h : s.answer i = some a) :
    ∃ r, s.procs i = .asking r ∧ r.query = .answer a := by
  rw [System.answer] at h
  cases hproc : s.procs i with
  | asking r =>
    rw [hproc] at h
    dsimp only at h
    cases hq : r.query with
    | answer b =>
      rw [hq] at h
      cases h
      exact ⟨r, rfl, hq⟩
    | _ =>
      rw [hq] at h
      cases h
  | _ =>
    rw [hproc] at h
    cases h

/-- **Coherence.** A query that starts in a state `s` of a run whose steps are all allowed comes to
its answer by snapshots which lack no write that had returned in `s`. -/
theorem coherent_run [Inhabited κ] {author : ι} {now : τ} {d : δ} {ls ls' : List (ι × Act τ γ ρ)}
    {t : System ι κ τ δ ν α γ ρ} {i : ι} {q : ρ} {a : α}
    (hallowed : Transition.Meets (System.step A) (Allowed A Same Exempt ok okView)
      (System.init A author now d) (ls ++ (i, .ask q) :: ls'))
    (hs : Transition.run (System.step A) (System.init A author now d) ls = some s)
    (ht : Transition.run (System.step A) s ((i, .ask q) :: ls') = some t)
    (ha : t.answer i = some a) :
    ∃ us, Reading A (Admissible Same ok t s.settled) (okView q) [] (A.query q) us (.answer a) := by
  obtain ⟨hbegin, hask⟩ := (Transition.meets_append hs).mp hallowed
  have hinv : Inv A Same Exempt ok okView s := Transition.run_invariant
    (fun _ _ _ hi ha hs => (inv_step hi ha hs).1) (inv_init author now d) hbegin hs
  obtain ⟨s', hstep, hrest⟩ := Transition.run_cons_eq_some.mp ht
  have hasks : s'.Asks i q s.settled := by
    rw [System.step] at hstep
    cases hproc : s.procs i <;> rw [hproc] at hstep <;> cases hstep
    exact ⟨_, update_self .., rfl, rfl⟩
  obtain ⟨hinv, hlater⟩ : Inv A Same Exempt ok okView t ∧ t.Asks i q s.settled :=
    Transition.run_invariant
      (fun _ _ _ h ha hs => (inv_step h.1 ha hs).imp_right fun hkeep => hkeep i q _ h.2)
      ⟨(inv_step hinv hask.1 hstep).1, hasks⟩ (hask.tail hstep) hrest
  obtain ⟨r, hr, htag, hbefore⟩ := hlater
  obtain ⟨r', hr', hquery⟩ := answer_eq_some ha
  obtain rfl : r = r' := Process.asking.inj (hr.symm.trans hr')
  have hreading := (hinv.readers i r hr).reading
  rw [htag, hbefore, hquery] at hreading
  exact ⟨r.used, hreading⟩

end Coherence

end CachedView
