import BoltDB.Store.Base
import BoltDB.Store.Values

/-!
# Streams

`stream_types.go` and `xautoclaim.go`. An entry has a record under the text of its ID, which holds its
fields; a consumer group has one that holds the entries that were delivered and not yet acknowledged.
Both are JSON, which is left out here: the functions below work on what is decoded.

`XAUTOCLAIM` goes through the pending entries in the order in which Go visits a map, which differs from
call to call, and answers the last ID it has claimed as the cursor. Nothing turns the cursor back to
`0-0` once it has left it, so that a client that waits for `0-0` waits for ever, unless there was nothing
to claim at all.
-/

namespace BoltDB.Store.Streams

open Bytes KeyValue List Int64

/-! ## IDs -/

/-- The bytes of a text, one character each. -/
def text (b : Bytes) : String := String.ofList (b.map fun d => Char.ofNat d.toNat)

/-- A time in milliseconds and a sequence number. `*` is the time of the clock. -/
def parseStreamID (now : Int64) (id : Bytes) : Except Err (Int64 × Int64) :=
  if id = "*" then .ok (now, 0)
  else if id = "+" ∨ id = "-" then .error (.other "invalid stream ID format")
  else
    match id.splitOn 45 with
    | [ts] =>
      match parseInt64 ts with
      | some ts => .ok (ts, 0)
      | none => .error (.other ("invalid stream ID: " ++ text id))
    | [ts, seq] =>
      match parseInt64 ts, parseInt64 seq with
      | none, _ => .error (.other ("invalid stream ID timestamp: " ++ text id))
      | some _, none => .error (.other ("invalid stream ID sequence: " ++ text id))
      | some ts, some seq => .ok (ts, seq)
    | _ => .error (.other ("invalid stream ID format: " ++ text id))

def formatStreamID (ts seq : Int64) : Bytes := formatInt ts.toInt ++ "-" ++ formatInt seq.toInt

/-- What a caller that drops the error works with. -/
def idOf (now : Int64) (id : Bytes) : Int64 × Int64 :=
  match parseStreamID now id with
  | .ok p => p
  | .error _ => (0, 0)

/-- The order of IDs. -/
def Before (p q : Int64 × Int64) : Prop := p.1 < q.1 ∨ p.1 = q.1 ∧ p.2 < q.2

instance (p q : Int64 × Int64) : Decidable (Before p q) := inferInstanceAs (Decidable (_ ∨ _))

/-! ## `XAUTOCLAIM` -/

structure XAutoClaimOptions where
  count : Int64
  justID : Bool
  idleMS : Int64
  timeMS : Int64
  retryCount : Int64
  force : Bool
  deriving DecidableEq

structure XAutoClaimResult where
  nextID : Bytes
  claimedIDs : List Bytes
  messages : List (Bytes × Fields)

/-- What one call is given: the time in milliseconds, and the order in which it visits a map. -/
structure Call where
  now : Int64
  visit : List Bytes → List Bytes
  perm : ∀ l, (visit l).Perm l

/-- The parameters that all calls have in common. -/
structure Claim where
  consumer : Bytes
  minIdleTime : Int64
  opts : XAutoClaimOptions

abbrev Pending := Std.ExtTreeMap Bytes StreamPendingEntry compare

abbrev Entries := Std.ExtTreeMap Bytes Fields compare

/-- An entry that was not claimed or delivered for long enough. -/
def Idle (now minIdleTime : Int64) (p : StreamPendingEntry) : Prop := minIdleTime ≤ now - p.lastDelivery

instance (now minIdleTime : Int64) (p : StreamPendingEntry) : Decidable (Idle now minIdleTime p) :=
  inferInstanceAs (Decidable (_ ≤ _))

section Claims

variable (c : Claim)

/-- The entries to look at: those pending, and with `FORCE` all of the stream. -/
def candidates (entries : Entries) (pending : Pending) : List Bytes :=
  pending.keys ++ if c.opts.force then entries.keys.filter (· ∉ pending) else []

/-- The record of an entry after it was claimed. -/
def claimed (now : Int64) (id : Bytes) (p : Option StreamPendingEntry) : StreamPendingEntry :=
  let lastDelivery :=
    if 0 < c.opts.timeMS then c.opts.timeMS
    else if 0 < c.opts.idleMS then now - c.opts.idleMS
    else now
  match p with
  | none => ⟨id, c.consumer, if 0 < c.opts.retryCount then c.opts.retryCount else 1, lastDelivery⟩
  | some p =>
    ⟨p.id, c.consumer, if 0 < c.opts.retryCount then c.opts.retryCount else p.deliveryCount + 1,
      lastDelivery⟩

/-- The candidate comes after the start and is idle, or not pending. -/
def Eligible (now : Int64) (start id : Bytes) (p : Option StreamPendingEntry) : Prop :=
  Before (idOf now start) (idOf now id) ∧ ∀ q ∈ p, Idle now c.minIdleTime q

instance (now : Int64) (start id : Bytes) (p : Option StreamPendingEntry) :
    Decidable (Eligible c now start id p) :=
  match p with
  | none => decidable_of_iff (Before (idOf now start) (idOf now id)) (by simp [Eligible])
  | some q => decidable_of_iff (Before (idOf now start) (idOf now id) ∧ Idle now c.minIdleTime q)
      (by simp [Eligible])

/-- What the loop over the candidates claims: it ends with the last of the `COUNT`. Each candidate comes
once, so that a claim does not change what the loop sees of the others. -/
def claimedIDs (call : Call) (start : Bytes) (candidates : List Bytes) (pending : Pending) : List Bytes :=
  let found := (call.visit candidates).filter fun id => Eligible c call.now start id pending[id]?
  if 0 < c.opts.count then found.take c.opts.count.toInt.toNat else found

/-- One call: the reply, and the pending entries after it. -/
def xAutoClaim (entries : Entries) (call : Call) (start : Bytes) (pending : Pending) :
    XAutoClaimResult × Pending :=
  let ids := claimedIDs c call start (candidates c entries pending) pending
  let nextID := match ids.getLast? with
    | some id => formatStreamID (idOf call.now id).1 (idOf call.now id).2
    | none => start
  (⟨nextID, ids, ids.filterMap fun id => (entries[id]?).map fun fields => (id, fields)⟩,
    ids.foldl (fun pending id => pending.insert id (claimed c call.now id pending[id]?)) pending)

variable {c} {call : Call} {start : Bytes} {l : List Bytes} {pending : Pending}

theorem claimedIDs_eq_nil :
    claimedIDs c call start l pending = [] ↔ ∀ id ∈ l, ¬ Eligible c call.now start id pending[id]? := by
  have hfound : (call.visit l).filter (fun id => Eligible c call.now start id pending[id]?) = [] ↔
      ∀ id ∈ l, ¬ Eligible c call.now start id pending[id]? := by
    simp [filter_eq_nil_iff, (call.perm l).mem_iff]
  rw [claimedIDs, ← hfound]
  split
  · next hcount =>
    have hpos : c.opts.count.toInt.toNat ≠ 0 := by
      rw [lt_iff_toInt_lt] at hcount
      exact fun h => absurd hcount (Int.not_lt.mpr (Int.toNat_eq_zero.mp h))
    rw [take_eq_nil_iff, or_iff_right hpos]
  · exact Iff.rfl

/-- Claimed IDs come after the start. -/
theorem before_of_mem_claimedIDs {id : Bytes} (h : id ∈ claimedIDs c call start l pending) :
    Before (idOf call.now start) (idOf call.now id) := by
  have hmem : id ∈ (call.visit l).filter fun id => Eligible c call.now start id pending[id]? := by
    rw [claimedIDs] at h
    split at h
    · exact mem_of_mem_take h
    · exact h
  exact (of_decide_eq_true (mem_filter.mp hmem).2).1

/-! ## Cursors -/

theorem notMem_of_mem_splitOn {s part : Bytes} (h : part ∈ s.splitOn 45) : 45 ∉ part := by
  induction s generalizing part with
  | nil => simp_all
  | cons b s ih =>
    rw [splitOn_cons_eq_if_modifyHead] at h
    obtain ⟨first, rest, hsplit⟩ := exists_cons_of_ne_nil (splitOn_ne_nil 45 s)
    rw [hsplit] at h ih
    split at h
    · rcases mem_cons.mp h with rfl | h
      · exact not_mem_nil
      · exact ih h
    · next hb =>
      rcases mem_cons.mp h with rfl | h
      · show 45 ∉ b :: first
        rw [mem_cons, not_or]
        exact ⟨fun heq => hb (by simp [← heq]), ih mem_cons_self⟩
      · exact ih (mem_cons_of_mem _ h)

theorem nonneg_of_parseInt64 {s : Bytes} {n : Int64} (h : parseInt64 s = some n) (hs : 45 ∉ s) :
    0 ≤ n.toInt := by
  have hsign : (splitSign s).1 = false := by
    cases s with
    | nil => rfl
    | cons b s =>
      rw [splitSign]
      split_ifs with hplus hminus
      · rfl
      · simp [hminus] at hs
      · rfl
  simp only [parseInt64, hsign, Bool.false_eq_true, if_false] at h
  split_ifs at h with _ hlt
  obtain rfl := Option.some.inj h
  rw [toInt_ofNat_of_lt hlt]
  omega

/-- No ID but that of the clock comes before `0-0`. -/
theorem not_before_zero (now : Int64) {id : Bytes} (hstar : id ≠ "*") :
    ¬ Before (idOf now id) (0, 0) := by
  have hpart : ∀ part ∈ id.splitOn 45, ∀ n, parseInt64 part = some n → 0 ≤ n.toInt :=
    fun part h n hn => nonneg_of_parseInt64 hn (notMem_of_mem_splitOn h)
  have hparts : 0 ≤ (idOf now id).1.toInt ∧ 0 ≤ (idOf now id).2.toInt := by
    rw [idOf, parseStreamID, if_neg hstar]
    generalize id.splitOn 45 = parts at hpart ⊢
    split_ifs
    · simp
    · rcases parts with _ | ⟨ts, _ | ⟨seq, _ | _⟩⟩
      · simp
      · cases hts : parseInt64 ts <;> simp_all
      · cases hts : parseInt64 ts <;> cases hseq : parseInt64 seq <;> simp_all
      · simp
  rintro (h | ⟨-, h⟩) <;> rw [lt_iff_toInt_lt] at h
  · exact absurd h (Int.not_lt.mpr hparts.1)
  · exact absurd h (Int.not_lt.mpr hparts.2)

theorem formatStreamID_ne_zero {p : Int64 × Int64} (h : Before (0, 0) p) :
    formatStreamID p.1 p.2 ≠ "0-0" := by
  obtain ⟨ts, seq⟩ := p
  intro heq
  dsimp only at heq
  rcases h with h | ⟨rfl, h⟩ <;> rw [lt_iff_toInt_lt] at h
  · -- the first digit of a positive number is not 0
    have hpos : 0 < ts.toInt := h
    obtain ⟨d, ds, hd, hlt⟩ := decimalAux_head (n := ts.toInt.natAbs) (by omega) (Nat.lt_succ_self _)
    rw [formatStreamID, formatInt, if_neg (by omega), decimal, hd] at heq
    obtain rfl : d = 48 := (List.cons.inj heq).1
    exact absurd hlt (by decide)
  · have hpos : 0 < seq.toInt := h
    have hdigits : decimal seq.toInt.natAbs = [48] := by
      have hrest : ascii "0-" ++ formatInt seq.toInt = ascii "0-" ++ [48] := heq
      rw [formatInt, if_neg (by omega)] at hrest
      exact append_cancel_left hrest
    have hvalue := digitsValue_decimal seq.toInt.natAbs
    rw [hdigits] at hvalue
    exact absurd hvalue (show (0 : Nat) ≠ _ by omega)

/-! ## Calls that feed the cursor back -/

end Claims

section Iteration

variable (c : Claim) (entries : Entries) (calls : Nat → Call) (pending : Pending)

/-- The cursor and the pending entries before a call; the first one starts at `0-0`. -/
def before : Nat → Bytes × Pending
  | 0 => ("0-0", pending)
  | k + 1 =>
    let (result, after) := xAutoClaim c entries (calls k) (before k).1 (before k).2
    (result.nextID, after)

/-- What a call claims. -/
def claims (k : Nat) : List Bytes :=
  (xAutoClaim c entries (calls k) (before c entries calls pending k).1
    (before c entries calls pending k).2).1.claimedIDs

/-- Some call is the first to answer `0-0`, and by then every pending entry that was idle is claimed once,
for the consumer, and the others are as they were. -/
def Completes : Prop := ∃ n, (before c entries calls pending (n + 1)).1 = "0-0" ∧
    (∀ k < n, (before c entries calls pending (k + 1)).1 ≠ "0-0") ∧
    ∀ id p, pending[id]? = some p →
      if Idle (calls 0).now c.minIdleTime p then
        ((List.range (n + 1)).flatMap (claims c entries calls pending)).count id = 1 ∧
          ∃ q, (before c entries calls pending (n + 1)).2[id]? = some q ∧ q.consumer = c.consumer
      else (before c entries calls pending (n + 1)).2[id]? = some p

variable {c entries calls pending} {start : Bytes}

theorem xAutoClaim_of_none {call : Call}
    (h : ∀ id ∈ candidates c entries pending, ¬ Eligible c call.now start id pending[id]?) :
    xAutoClaim c entries call start pending = (⟨start, [], []⟩, pending) := by
  rw [xAutoClaim, claimedIDs_eq_nil.mpr h]
  rfl

/-- A cursor that a client gets after something was claimed. -/
def Past (cursor : Bytes) : Prop := cursor ≠ "0-0" ∧ cursor ≠ "*"

theorem past_nextID {call : Call} (hstart : start ≠ "*")
    (h : (xAutoClaim c entries call start pending).1.claimedIDs ≠ [] ∨ Past start) :
    Past (xAutoClaim c entries call start pending).1.nextID := by
  rw [xAutoClaim] at h ⊢
  cases hlast : (claimedIDs c call start (candidates c entries pending) pending).getLast? with
  | none => exact h.resolve_left fun hne => hne (getLast?_eq_none_iff.mp hlast)
  | some id =>
    have hid := before_of_mem_claimedIDs (mem_of_getLast? hlast)
    refine ⟨formatStreamID_ne_zero ?_, fun heq => ?_⟩
    · have hzero := not_before_zero call.now hstart
      simp only [Before, lt_iff_toInt_lt, ← toInt_inj] at hid hzero ⊢
      omega
    · have hdash : 45 ∈ ascii "*" := heq ▸ by simp [formatStreamID, ascii]
      exact absurd hdash (by decide)

/-- Once something was claimed, no cursor is `0-0`. -/
theorem past_before (h : claims c entries calls pending 0 ≠ []) (k : Nat) :
    Past (before c entries calls pending (k + 1)).1 := by
  induction k with
  | zero => exact past_nextID (show ascii "0-0" ≠ ascii "*" by decide) (.inl h)
  | succ k ih => exact past_nextID ih.2 (.inr ih)

theorem mem_candidates (hforce : c.opts.force = false) {id : Bytes} :
    id ∈ candidates c entries pending ↔ ∃ p, pending[id]? = some p := by
  rw [candidates, hforce, if_neg Bool.false_ne_true, append_nil, Std.ExtTreeMap.mem_keys,
    Std.ExtTreeMap.mem_iff_isSome_getElem?, Option.isSome_iff_exists]

/-- **Iteration with `XAUTOCLAIM`.** It comes to its end, with all idle entries claimed once, just when no
entry is idle. -/
theorem autoClaim_completes_iff (hforce : c.opts.force = false) :
    Completes c entries calls pending ↔
      ∀ (id : Bytes) (p : StreamPendingEntry), pending[id]? = some p →
        ¬ Idle (calls 0).now c.minIdleTime p := by
  by_cases helig : ∃ id ∈ candidates c entries pending,
      Eligible c (calls 0).now "0-0" id pending[id]?
  · -- something is claimed, and the cursor never comes back
    have hclaims : claims c entries calls pending 0 ≠ [] := by
      obtain ⟨id, hid, hel⟩ := helig
      exact fun hnil => claimedIDs_eq_nil.mp hnil id hid hel
    refine iff_of_false ?_ ?_
    · rintro ⟨n, hzero, -⟩
      exact (past_before hclaims n).1 hzero
    · obtain ⟨id, hid, hel⟩ := helig
      obtain ⟨p, hp⟩ := (mem_candidates hforce).mp hid
      exact fun h => h id p hp (hel.2 p hp)
  · have hcall : xAutoClaim c entries (calls 0) "0-0" pending =
        (⟨"0-0", [], []⟩, pending) :=
      xAutoClaim_of_none fun id hid hel => helig ⟨id, hid, hel⟩
    have hone : before c entries calls pending 1 = (ascii "0-0", pending) := by
      rw [before, before, hcall]
    constructor
    · rintro ⟨n, -, hfirst, hall⟩ id p hp hidle
      obtain rfl : n = 0 := Nat.eq_zero_of_not_pos fun hn => hfirst 0 hn (by rw [hone])
      have hcount := (if_pos hidle ▸ hall id p hp).1
      have hnone : claims c entries calls pending 0 = [] := by
        rw [claims, before, hcall]
      simp [hnone] at hcount
    · intro h
      refine ⟨0, by rw [hone], fun k hk => absurd hk (Nat.not_lt_zero k), fun id p hp => ?_⟩
      rw [if_neg (h id p hp), hone]
      exact hp

/-- Consumer `d` asks for one entry at a time, all calls at time 10. -/
def oneByOne (minIdleTime : Int64) : Claim := ⟨"d", minIdleTime, ⟨1, false, 0, 0, 0, false⟩⟩

/-- The entry `5-0`, delivered at time 8. -/
def delivered : Pending := (∅ : Pending).insert "5-0" ⟨"5-0", "c", 1, 8⟩

theorem autoClaim_completes_busy :
    Completes (oneByOne 5) ∅ (fun _ => ⟨10, id, fun _ => .refl _⟩) delivered := by
  refine (autoClaim_completes_iff rfl).mpr fun id p hp => ?_
  rw [delivered, getElem?_insert_ite] at hp
  split_ifs at hp
  · obtain rfl := Option.some.inj hp
    decide
  · cases hp

/-- The entry is claimed, and no call ever answers `0-0`. -/
theorem autoClaim_never_ends :
    ¬ Completes (oneByOne 1) ∅ (fun _ => ⟨10, id, fun _ => .refl _⟩) delivered := by
  rintro ⟨n, hzero, -⟩
  exact (past_before (by decide +kernel) n).1 hzero

end Iteration

end BoltDB.Store.Streams
