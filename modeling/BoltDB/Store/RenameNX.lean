import BoltDB.Lib.Transition
import BoltDB.Store.Rename

/-!
# `RENAMENX` among other writes

`RenameNX` in `rename.go`, next to other clients. The call is a transaction of its own around a
second one: `commitTS` takes a timestamp, the check reads the newest `TYPE_` record, `Rename` takes
a later timestamp, moves the records and commits them with a `RENAME` record, and only then is the
`RENAMENX` record committed at the first timestamp. The transactions read at `math.MaxUint64`, so
badger never reports a conflict between them.

A replica replays the log by timestamp. The clock stands still: expiry is not what is at issue here.
-/

namespace BoltDB.Store.RenameNX

open Bytes KeyValue Transition List

variable {ι : Type}

/-! ## The log -/

/-- What stands at a timestamp of the log. The record of another client's write repeats that
write. -/
inductive Slot (ι : Type)
  | pending (i : ι)
  | noop
  | write (f : Db → Db)
  | rename (key newKey : Bytes)
  | renameNX (key newKey : Bytes)

def outcome {α : Type} : Except Err α × Db → Except Err Db
  | (.ok _, db) => .ok db
  | (.error e, _) => .error e

/-- What the replica does at a timestamp. Nothing has been sent for a pending one. -/
def Slot.replay (now : Nat) : Slot ι → Db → Except Err Db
  | .pending _, db => .ok db
  | .noop, db => .ok db
  | .write f, db => .ok (f db)
  | .rename key newKey, db => outcome (Store.rename now key newKey db)
  | .renameNX key newKey, db => outcome (Store.renameNX now key newKey db)

def replay (now : Nat) : List (Slot ι) → Db → Except Err Db
  | [], db => .ok db
  | s :: log, db => s.replay now db >>= replay now log

/-- The replica's store just before it comes to a timestamp. -/
def stateAt (now : Nat) (db₀ : Db) (log : List (Slot ι)) (t : Nat) : Except Err Db :=
  replay now (log.take t) db₀

/-- The record at a timestamp changes the replica's store. -/
def Effective (now : Nat) (db₀ : Db) (log : List (Slot ι)) (t : Nat) : Prop :=
  ∃ slot s s', log[t]? = some slot ∧ stateAt now db₀ log t = .ok s ∧
    slot.replay now s = .ok s' ∧ s' ≠ s

/-! ## The calls -/

structure Call where
  key : Bytes
  newKey : Bytes
  deriving DecidableEq

/-- How far a call has come: `ts` is the timestamp of the outer transaction and `inner` the one of
the rename. -/
inductive Phase
  | idle
  | begun (c : Call) (ts : Nat)
  | absent (c : Call) (ts : Nat)
  | returning (c : Call) (ts : Nat) (inner : Option Nat) (result : Except Err Bool)
  | returned (c : Call) (ts : Nat) (inner : Option Nat) (result : Except Err Bool)
  deriving DecidableEq

structure World (ι : Type) where
  db : Db
  log : List (Slot ι)
  calls : ι → Phase
  overwritten : Bool

inductive Action (ι : Type)
  | write (f : Db → Db)
  | begin (i : ι) (c : Call)
  | check (i : ι)
  | rename (i : ι)
  | commit (i : ι)

def present (now : Nat) (key : Bytes) (db : Db) : Bool :=
  (visible (unix now) db)[typeOfKeyGet key]?.isSome

/-- The record of the outer transaction; a failed one leaves a tombstone. -/
def outerRecord (c : Call) : Except Err Bool → Slot ι
  | .ok _ => .renameNX c.key c.newKey
  | .error _ => .noop

def step [DecidableEq ι] (now : Nat) (w : World ι) : Action ι → Option (World ι)
  | .write f => some { w with db := f w.db, log := w.log ++ [.write f] }
  | .begin i c =>
    match w.calls i with
    | .idle => some { w with
        log := w.log ++ [.pending i]
        calls := Function.update w.calls i (.begun c w.log.length) }
    | _ => none
  | .check i =>
    match w.calls i with
    | .begun c ts => some { w with
        calls := Function.update w.calls i
          (if present now c.newKey w.db then .returning c ts none (.ok false) else .absent c ts) }
    | _ => none
  | .rename i =>
    match w.calls i with
    | .absent c ts =>
      if c.key = c.newKey then
        some { w with calls := Function.update w.calls i (.returning c ts none (.ok true)) }
      else
        match Store.rename now c.key c.newKey w.db with
        | (.ok (), db) => some {
            db
            log := w.log ++ [.rename c.key c.newKey]
            calls := Function.update w.calls i (.returning c ts (some w.log.length) (.ok true))
            overwritten := w.overwritten || present now c.newKey w.db }
        | (.error e, _) => some { w with
            log := w.log ++ [.noop]
            calls := Function.update w.calls i (.returning c ts (some w.log.length) (.error e)) }
    | _ => none
  | .commit i =>
    match w.calls i with
    | .returning c ts inner result => some { w with
        log := w.log.set ts (outerRecord c result)
        calls := Function.update w.calls i (.returned c ts inner result) }
    | _ => none

def World.init (db : Db) : World ι := ⟨db, [], fun _ => .idle, false⟩

/-- No call has renamed onto a key that was there, the replica comes to the same store without an
error, and each call that has succeeded has one record in the log that does something. -/
structure Sound (now : Nat) (db₀ : Db) (w : World ι) : Prop where
  kept : w.overwritten = false
  replica : replay now w.log db₀ = .ok w.db
  one : ∀ i c ts inner, w.calls i = .returned c ts inner (.ok true) →
    ∃! t, t ∈ ts :: inner.toList ∧ Effective now db₀ w.log t

/-! ## When it works -/

/-- A call that has found its new key absent still does. -/
def Phase.Avoids (now : Nat) (db : Db) : Phase → Prop
  | .absent c _ => present now c.newKey db = false
  | _ => True

instance (now : Nat) (db : Db) (p : Phase) : Decidable (p.Avoids now db) := by
  unfold Phase.Avoids
  split <;> infer_instance

/-- The store after the rename of a call. -/
def Phase.renamed (now : Nat) (db : Db) : Phase → Db
  | .absent c _ => (Store.rename now c.key c.newKey db).2
  | _ => db

/-- A call begins while its new key, which is another one than its key, is there; and the new key
of a call that has found it absent is not written before that call's rename. -/
def Fits (now : Nat) (w : World ι) : Action ι → Prop
  | .write f => ∀ j, (w.calls j).Avoids now (f w.db)
  | .begin _ c => c.key ≠ c.newKey ∧ present now c.newKey w.db = true
  | .rename i => ∀ j, j ≠ i → (w.calls j).Avoids now ((w.calls i).renamed now w.db)
  | _ => True

instance [Fintype ι] [DecidableEq ι] (now : Nat) (w : World ι) (a : Action ι) : Decidable (Fits now w a) := by
  unfold Fits
  split <;> infer_instance

section Replay

variable {now : Nat} {db₀ : Db} {log : List (Slot ι)} {t : Nat}

theorem replay_append (l l' : List (Slot ι)) (db : Db) :
    replay now (l ++ l') db = replay now l db >>= replay now l' := by
  induction l generalizing db with
  | nil => rfl
  | cons s l ih =>
    simp only [cons_append, replay]
    cases s.replay now db with
    | error e => rfl
    | ok db' => exact ih db'

theorem replay_snoc (slot : Slot ι) (db : Db) :
    replay now (log ++ [slot]) db = replay now log db >>= slot.replay now := by
  rw [replay_append]
  congr 1
  funext db'
  show slot.replay now db' >>= (fun db => .ok db) = _
  cases slot.replay now db' <;> rfl

theorem stateAt_length : stateAt now db₀ log log.length = replay now log db₀ := by
  rw [stateAt, take_length]

theorem stateAt_append (h : t ≤ log.length) (l : List (Slot ι)) :
    stateAt now db₀ (log ++ l) t = stateAt now db₀ log t := by
  rw [stateAt, stateAt, take_append_of_le_length h]

/-- A record that changes nothing where it comes to stand is as good as none. -/
theorem replay_set {s : Db} {old slot : Slot ι} (hget : log[t]? = some old)
    (hstate : stateAt now db₀ log t = .ok s) (hold : old.replay now s = .ok s)
    (hslot : slot.replay now s = .ok s) : replay now (log.set t slot) db₀ = replay now log db₀ := by
  obtain ⟨ht, rfl⟩ := List.getElem?_eq_some_iff.mp hget
  have hsplit : log = log.take t ++ log[t] :: log.drop (t + 1) := by simp
  have hset : log.set t slot = log.take t ++ slot :: log.drop (t + 1) := by
    rw [set_eq_take_append_cons_drop, if_pos ht]
  rw [stateAt] at hstate
  rw [hset]
  conv => rhs; rw [hsplit]
  rw [replay_append, replay_append, hstate]
  show slot.replay now s >>= _ = log[t].replay now s >>= _
  rw [hslot, hold]

theorem stateAt_set {s : Db} {old slot : Slot ι} (hget : log[t]? = some old)
    (hstate : stateAt now db₀ log t = .ok s) (hold : old.replay now s = .ok s)
    (hslot : slot.replay now s = .ok s) (n : Nat) :
    stateAt now db₀ (log.set t slot) n = stateAt now db₀ log n := by
  rw [stateAt, take_set]
  by_cases hn : t < n
  · have htake : (log.take n).take t = log.take t := by
      rw [take_take, Nat.min_eq_left hn.le]
    have hget' : (log.take n)[t]? = some old := by rw [getElem?_take_of_lt hn, hget]
    have hstate' : stateAt now db₀ (log.take n) t = .ok s := by rw [stateAt, htake, ← stateAt, hstate]
    exact replay_set hget' hstate' hold hslot
  · rw [set_eq_of_length_le (by simp; omega), stateAt]

end Replay

section Methods

variable {now : Nat} {key newKey : Bytes} {db db' : Db}

theorem view_keyExists (now : Nat) (key : Bytes) (db : Db) :
    view now (keyExists key) db = (.ok (present now key db), db) := rfl

theorem renameNX_of_present (h : present now newKey db = true) :
    Store.renameNX now key newKey db = (.ok false, db) := by
  have hview : view now (keyExists newKey) db = (.ok true, db) := by
    rw [view_keyExists, h]
  rw [Store.renameNX, Run.bind_of_ok hview]
  rfl

theorem renameNX_of_absent (h : present now newKey db = false)
    (hrun : Store.rename now key newKey db = (.ok (), db')) :
    Store.renameNX now key newKey db = (.ok true, db') := by
  have hview : view now (keyExists newKey) db = (.ok false, db) := by
    rw [view_keyExists, h]
  rw [Store.renameNX, Run.bind_of_ok hview, if_neg (by decide), Run.bind_of_ok hrun]
  rfl

theorem rename_eq_ok (hne : key ≠ newKey) (h : Store.rename now key newKey db = (.ok (), db')) :
    (visible (unix now) db)[typeOfKeyGet key]? ≠ none ∧ db'[typeOfKeyGet key]? = none := by
  rw [Store.rename, if_neg hne] at h
  exact typeOfKeyGet_renameTxn hne (Run.update_eq_ok.mp h)

/-- A rename that succeeds changes the store. -/
theorem ne_of_rename (hne : key ≠ newKey) (h : Store.rename now key newKey db = (.ok (), db')) :
    db' ≠ db := by
  rintro rfl
  obtain ⟨hold, hgone⟩ := rename_eq_ok hne h
  apply hold
  rw [getElem?_visible, hgone]
  rfl

/-- And cannot be repeated. -/
theorem rename_twice (hne : key ≠ newKey) (h : Store.rename now key newKey db = (.ok (), db')) :
    Store.rename now key newKey db' = (.error .noSuchKey, db') := by
  rw [Store.rename, if_neg hne]
  apply Run.update_of_error
  apply renameTxn_absent
  rw [getElem?_visible, (rename_eq_ok hne h).2]
  rfl

end Methods

/-! ## The invariant -/

section Invariant

variable {now : Nat} {db₀ : Db} {w w' : World ι} {log log' : List (Slot ι)}

/-- Where the timestamp of a call stands in the log the new key is there, so that its record says
nothing. -/
structure Reserved (now : Nat) (db₀ : Db) (log : List (Slot ι)) (c : Call) (ts : Nat)
    (slot : Slot ι) : Prop where
  slot : log[ts]? = some slot
  ne : c.key ≠ c.newKey
  idle : ∃ s, stateAt now db₀ log ts = .ok s ∧ present now c.newKey s = true

/-- A call that has succeeded has a `RENAME` record, which does something. -/
def Renamed (now : Nat) (db₀ : Db) (log : List (Slot ι)) (c : Call) (inner : Option Nat)
    (result : Except Err Bool) : Prop :=
  result = .ok true → ∃ t s s', inner = some t ∧ log[t]? = some (.rename c.key c.newKey) ∧
    stateAt now db₀ log t = .ok s ∧ Store.rename now c.key c.newKey s = (.ok (), s') ∧ s' ≠ s

def CallInv (now : Nat) (db₀ db : Db) (log : List (Slot ι)) (i : ι) : Phase → Prop
  | .idle => True
  | .begun c ts => Reserved now db₀ log c ts (.pending i)
  | .absent c ts => Reserved now db₀ log c ts (.pending i) ∧ present now c.newKey db = false
  | .returning c ts inner result =>
    Reserved now db₀ log c ts (.pending i) ∧ Renamed now db₀ log c inner result
  | .returned c ts inner result =>
    Reserved now db₀ log c ts (outerRecord c result) ∧ Renamed now db₀ log c inner result

structure Inv (now : Nat) (db₀ : Db) (w : World ι) : Prop where
  kept : w.overwritten = false
  replica : replay now w.log db₀ = .ok w.db
  calls : ∀ i, CallInv now db₀ w.db w.log i (w.calls i)

/-- `log'` has the slots of `log` that satisfy `P`, and replays like it. -/
structure Follows (now : Nat) (db₀ : Db) (P : Slot ι → Prop) (log log' : List (Slot ι)) : Prop where
  slots : ∀ (t : Nat) slot, log[t]? = some slot → P slot → log'[t]? = some slot
  states : ∀ t < log.length, stateAt now db₀ log' t = stateAt now db₀ log t

theorem Follows.append (slot : Slot ι) : Follows now db₀ (fun _ => True) log (log ++ [slot]) where
  slots t s h _ := by
    obtain ⟨ht, -⟩ := List.getElem?_eq_some_iff.mp h
    rw [getElem?_append_left ht, h]
  states t ht := stateAt_append ht.le _

variable {c : Call} {db' : Db} {result : Except Err Bool} {ts : Nat} {p : Phase} {P : Slot ι → Prop}
  {i : ι}

theorem Reserved.follows {slot : Slot ι} (h : Reserved now db₀ log c ts slot)
    (hlog : Follows now db₀ P log log') (hP : P slot) :
    Reserved now db₀ log' c ts slot where
  slot := hlog.slots ts slot h.slot hP
  ne := h.ne
  idle := by
    obtain ⟨hts, -⟩ := List.getElem?_eq_some_iff.mp h.slot
    rw [hlog.states ts hts]
    exact h.idle

theorem Renamed.follows {inner : Option Nat} (h : Renamed now db₀ log c inner result)
    (hlog : Follows now db₀ P log log') (hP : P (.rename c.key c.newKey)) :
    Renamed now db₀ log' c inner result := by
  intro hresult
  obtain ⟨t, s, s', hinner, hslot, hstate, hrename⟩ := h hresult
  obtain ⟨ht, -⟩ := List.getElem?_eq_some_iff.mp hslot
  exact ⟨t, s, s', hinner, hlog.slots t _ hslot hP, (hlog.states t ht).trans hstate, hrename⟩

/-- What other clients do to the log and the store leaves a call as it was. -/
theorem CallInv.follows {db : Db} (h : CallInv now db₀ db log i p)
    (hlog : Follows now db₀ P log log') (hP : ∀ slot, (∀ j, slot = .pending j → j = i) → P slot)
    (hdb : p.Avoids now db') : CallInv now db₀ db' log' i p := by
  have hpending : P (.pending i) := hP _ fun j hj => by cases hj; rfl
  have hrename : ∀ c : Call, P (.rename c.key c.newKey) := fun c => hP _ nofun
  have houter : ∀ c result, P (outerRecord c result) := by
    intro c result
    apply hP
    intro j hj
    cases result <;> cases hj
  cases p with
  | idle => trivial
  | begun c ts => exact Reserved.follows h hlog hpending
  | absent c ts => exact ⟨h.1.follows hlog hpending, hdb⟩
  | returning c ts inner result =>
    exact ⟨h.1.follows hlog hpending, h.2.follows hlog (hrename c)⟩
  | returned c ts inner result =>
    exact ⟨h.1.follows hlog (houter c result), h.2.follows hlog (hrename c)⟩

theorem CallInv.avoids {db : Db} (h : CallInv now db₀ db log i p) : p.Avoids now db := by
  cases p with
  | absent c ts => exact h.2
  | _ => trivial

/-- One client moves on, and the others see the log grow. -/
theorem calls_update [DecidableEq ι] (h : Inv now db₀ w) (hlog : Follows now db₀ P w.log log')
    (hP : ∀ j ≠ i, ∀ slot, (∀ k, slot = .pending k → k = j) → P slot)
    (hdb : ∀ j, j ≠ i → (w.calls j).Avoids now db') (hi : CallInv now db₀ db' log' i p) (j : ι) :
    CallInv now db₀ db' log' j (Function.update w.calls i p j) := by
  by_cases hj : j = i
  · subst hj
    rw [Function.update_self]
    exact hi
  · rw [Function.update_of_ne hj]
    exact (h.calls j).follows hlog (hP j hj) (hdb j hj)

theorem Follows.refl (log : List (Slot ι)) : Follows now db₀ (fun _ => True) log log where
  slots _ _ h _ := h
  states _ _ := rfl

theorem inv_init (db : Db) : Inv now db (World.init db : World ι) where
  kept := rfl
  replica := rfl
  calls _ := trivial

theorem Inv.snoc {slot : Slot ι} (h : Inv now db₀ w) (hslot : slot.replay now w.db = .ok db') :
    replay now (w.log ++ [slot]) db₀ = .ok db' := by
  rw [replay_snoc, h.replica]
  exact hslot

theorem Inv.write {f : Db → Db} (h : Inv now db₀ w) (hf : ∀ j, (w.calls j).Avoids now (f w.db)) :
    Inv now db₀ { w with db := f w.db, log := w.log ++ [.write f] } where
  kept := h.kept
  replica := h.snoc rfl
  calls j := (h.calls j).follows (.append _) (fun _ _ => trivial) (hf j)

theorem outerRecord_replay {s : Db} (h : present now c.newKey s = true) :
    (outerRecord c result : Slot ι).replay now s = .ok s := by
  cases result with
  | error e => rfl
  | ok b =>
    rw [outerRecord, Slot.replay, renameNX_of_present h]
    rfl

variable [DecidableEq ι]

section Steps

variable (h : Inv now db₀ w)

include h

/-- The timestamp of a call that begins is the end of the log, where the replica's store is the
master's. -/
theorem Inv.begin (hne : c.key ≠ c.newKey) (hpresent : present now c.newKey w.db = true) :
    Inv now db₀ { w with
      log := w.log ++ [.pending i]
      calls := Function.update w.calls i (.begun c w.log.length) } where
  kept := h.kept
  replica := h.snoc rfl
  calls := by
    refine calls_update h (.append _) (fun _ _ _ _ => trivial) (fun j _ => (h.calls j).avoids) ?_
    refine ⟨by simp, hne, w.db, ?_, hpresent⟩
    rw [stateAt_append le_rfl, stateAt_length, h.replica]

theorem Inv.check (hi : w.calls i = .begun c ts) : Inv now db₀ { w with
      calls := Function.update w.calls i
        (if present now c.newKey w.db then .returning c ts none (.ok false)
          else .absent c ts) } where
  __ := h
  calls := by
    have hreserved : Reserved now db₀ w.log c ts (.pending i) := by
      have := h.calls i
      rwa [hi] at this
    refine calls_update h (.refl _) (fun _ _ _ _ => trivial) (fun j _ => (h.calls j).avoids) ?_
    cases hpresent : present now c.newKey w.db with
    | true => exact ⟨hreserved, nofun⟩
    | false => exact ⟨hreserved, hpresent⟩

theorem Inv.rename (hi : w.calls i = .absent c ts)
    (hrun : Store.rename now c.key c.newKey w.db = (.ok (), db'))
    (hothers : ∀ j, j ≠ i → (w.calls j).Avoids now db') :
    Inv now db₀ {
      db := db'
      log := w.log ++ [.rename c.key c.newKey]
      calls := Function.update w.calls i (.returning c ts (some w.log.length) (.ok true))
      overwritten := w.overwritten || present now c.newKey w.db } := by
  obtain ⟨hreserved, habsent⟩ : CallInv now db₀ w.db w.log i (.absent c ts) := hi ▸ h.calls i
  refine ⟨?_, h.snoc ?_, ?_⟩
  · rw [h.kept, habsent]
    rfl
  · rw [Slot.replay, hrun]
    rfl
  · refine calls_update h (.append _) (fun _ _ _ _ => trivial) hothers ?_
    refine ⟨hreserved.follows (.append _) trivial, fun _ => ⟨w.log.length, w.db, db', rfl, ?_, ?_⟩⟩
    · simp
    · rw [stateAt_append le_rfl, stateAt_length]
      exact ⟨h.replica, hrun, ne_of_rename hreserved.ne hrun⟩

theorem Inv.rename_error {e : Err} (hi : w.calls i = .absent c ts) : Inv now db₀ { w with
      log := w.log ++ [.noop]
      calls := Function.update w.calls i (.returning c ts (some w.log.length) (.error e)) } := by
  obtain ⟨hreserved, -⟩ : CallInv now db₀ w.db w.log i (.absent c ts) := hi ▸ h.calls i
  refine ⟨h.kept, h.snoc rfl, ?_⟩
  refine calls_update h (.append _) (fun _ _ _ _ => trivial) (fun j _ => (h.calls j).avoids) ?_
  exact ⟨hreserved.follows (.append _) trivial, nofun⟩

/-- The record of the outer transaction goes to where it changes nothing. -/
theorem Inv.commit {inner : Option Nat} (hi : w.calls i = .returning c ts inner result) :
    Inv now db₀ { w with
      log := w.log.set ts (outerRecord c result)
      calls := Function.update w.calls i (.returned c ts inner result) } := by
  obtain ⟨hreserved, hrenamed⟩ : CallInv now db₀ w.db w.log i (.returning c ts inner result) :=
    hi ▸ h.calls i
  obtain ⟨s, hstate, hpresent⟩ := hreserved.idle
  have hslot : (outerRecord c result : Slot ι).replay now s = .ok s := outerRecord_replay hpresent
  have hstates := stateAt_set hreserved.slot hstate rfl hslot
  have hts : ts < w.log.length := (List.getElem?_eq_some_iff.mp hreserved.slot).1
  have hfollows : Follows now db₀ (· ≠ .pending i) w.log (w.log.set ts (outerRecord c result)) := by
    refine ⟨?_, fun t _ => hstates t⟩
    intro t slot hget hne
    rw [getElem?_set_ne, hget]
    rintro rfl
    rw [hreserved.slot] at hget
    exact hne (Option.some.inj hget).symm
  refine ⟨h.kept, ?_, ?_⟩
  · rw [replay_set hreserved.slot hstate rfl hslot]
    exact h.replica
  · refine calls_update h hfollows ?_ (fun j _ => (h.calls j).avoids) ?_
    · rintro j hj slot hown rfl
      exact hj (hown i rfl).symm
    · refine ⟨⟨?_, hreserved.ne, s, (hstates ts).trans hstate, hpresent⟩, ?_⟩
      · rw [getElem?_set_self hts]
      · exact hrenamed.follows hfollows nofun

theorem inv_step {a : Action ι} (ha : Fits now w a) (hstep : step now w a = some w') :
    Inv now db₀ w' := by
  cases a with
  | write f =>
    cases hstep
    exact h.write ha
  | begin i c =>
    simp only [step] at hstep
    split at hstep
    · cases hstep
      exact h.begin ha.1 ha.2
    · cases hstep
  | check i =>
    simp only [step] at hstep
    split at hstep
    · next c ts hi =>
      cases hstep
      exact h.check hi
    · cases hstep
  | rename i =>
    simp only [step] at hstep
    split at hstep
    · next c ts hi =>
      have hreserved : Reserved now db₀ w.log c ts (.pending i) := by
        have := h.calls i
        rw [hi] at this
        exact this.1
      simp only [Fits, hi, Phase.renamed] at ha
      rw [if_neg hreserved.ne] at hstep
      split at hstep
      · next db' hrun =>
        cases hstep
        rw [hrun] at ha
        exact h.rename hi hrun ha
      · cases hstep
        exact h.rename_error hi
    · cases hstep
  | commit i =>
    simp only [step] at hstep
    split at hstep
    · next c ts inner result hi =>
      cases hstep
      exact h.commit hi
    · cases hstep

omit [DecidableEq ι] in
theorem Inv.sound : Sound now db₀ w where
  __ := h
  one := by
    intro i c ts inner hi
    obtain ⟨hreserved, hrenamed⟩ : CallInv now db₀ w.db w.log i (.returned c ts inner (.ok true)) :=
      hi ▸ h.calls i
    obtain ⟨t, s, s', rfl, hslot, hstate, hrun, hne⟩ := hrenamed rfl
    refine ⟨t, ⟨by simp, .rename c.key c.newKey, s, s', hslot, hstate, ?_, hne⟩, ?_⟩
    · rw [Slot.replay, hrun]
      rfl
    · -- The other record of the call stands where the new key is there.
      rintro t' ⟨hmem, slot, s₁, s₂, hslot', hstate', hreplay, hne'⟩
      simp only [Option.toList_some, mem_cons, not_mem_nil, or_false] at hmem
      obtain rfl | rfl := hmem
      · obtain ⟨s₃, hs₃, hpresent⟩ := hreserved.idle
        rw [hreserved.slot] at hslot'
        rw [hstate'] at hs₃
        cases hslot'
        cases hs₃
        rw [outerRecord_replay hpresent] at hreplay
        cases hreplay
        exact absurd rfl hne'
      · rfl

end Steps

/-- In every run in which each call begins while its new key is there, and in which nobody writes
the new key of a call between its check and its rename, nothing is overwritten, the replica follows
the master, and each call that succeeds has one record that does something. -/
theorem renameNX_sound (now : Nat) (db : Db) (as : List (Action ι)) (w : World ι)
    (hfits : Meets (step now) (Fits now) (World.init db) as)
    (hrun : run (step now) (World.init db) as = some w) : Sound now db w :=
  (run_invariant (fun _ _ _ h ha hstep => inv_step h ha hstep) (inv_init db) hfits hrun).sound

/-- A call that succeeds without anyone else in between leaves a log that no replica gets through:
the `RENAMENX` record comes first and does the rename, and the `RENAME` record then finds no key. -/
theorem uncontended_replay_fails {db : Db} (i : ι) (c : Call) (hne : c.key ≠ c.newKey)
    (habsent : present now c.newKey db = false)
    (hrename : Store.rename now c.key c.newKey db = (.ok (), db')) :
    ∃ w, run (step now) (World.init db) [.begin i c, .check i, .rename i, .commit i] = some w ∧
      w.calls i = .returned c 0 (some 1) (.ok true) ∧ w.db = db' ∧
      replay now w.log db = .error .noSuchKey := by
  refine ⟨⟨db', [.renameNX c.key c.newKey, .rename c.key c.newKey],
    Function.update (fun _ => .idle) i (.returned c 0 (some 1) (.ok true)), false⟩, ?_, ?_, rfl, ?_⟩
  · simp [run, step, World.init, habsent, hne, hrename, outerRecord]
  · simp
  · rw [replay, Slot.replay, renameNX_of_absent habsent hrename]
    show Slot.replay now (.rename c.key c.newKey) db' >>= _ = _
    rw [Slot.replay, rename_twice hne hrename]
    rfl

end Invariant

section Examples

/-- `SET key v`, as another client's write. -/
def setting (key : Bytes) (db : Db) : Db := (Strings.set uncompressed 0 key "v" db).2

def deleting (key : Bytes) (db : Db) : Db := (del 0 key db).2

/-- `RENAMENX a b`. -/
def aToB : Call := ⟨"a", "b"⟩

theorem uncontended_replay_fails_aToB :
    ∃ w : World Unit, w.calls () = .returned aToB 0 (some 1) (.ok true) ∧
      replay 0 w.log (setting "a" ∅) = .error .noSuchKey :=
  (uncontended_replay_fails () aToB (by decide) (by decide +kernel)
    (Prod.ext (by decide +kernel) rfl)).imp fun _ h => ⟨h.2.1, h.2.2.2⟩

/-- The new key is there when the call begins and is deleted before the check. -/
def racing : List (Action Unit) := [.write (setting "a"), .write (setting "b"), .begin () aToB,
    .write (deleting "b"), .check (), .rename (), .commit ()]

theorem renameNX_sound_racing :
    ∃ w, run (step 0) (World.init ∅) racing = some w ∧
      w.calls () = .returned aToB 2 (some 4) (.ok true) ∧ Sound 0 ∅ w := by
  have hfits : Meets (step 0) (Fits 0) (World.init ∅) racing := by decide +kernel
  obtain ⟨w, hrun, hcalls⟩ : ∃ w, run (step 0) (World.init ∅) racing = some w ∧
      w.calls () = .returned aToB 2 (some 4) (.ok true) := run_end (by decide +kernel)
  exact ⟨w, hrun, hcalls, renameNX_sound 0 ∅ racing w hfits hrun⟩

/-- With nobody else around the log cannot be replayed; and a key set between the check and the
rename is lost. -/
theorem renameNX_overwrites_and_breaks_the_log :
    (∃ w : World Unit, run (step 0) (World.init ∅) [.write (setting (ascii "a")), .begin () aToB,
        .check (), .rename (), .commit ()] = some w ∧ (replay 0 w.log ∅).isOk = false) ∧
      ∃ w : World Unit, run (step 0) (World.init ∅) [.write (setting (ascii "a")), .begin () aToB,
        .check (), .write (setting (ascii "b")), .rename (), .commit ()] = some w ∧
        w.overwritten = true :=
  ⟨run_end (by decide +kernel), run_end (by decide +kernel)⟩

end Examples

end BoltDB.Store.RenameNX
