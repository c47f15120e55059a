import BoltDB.Lib.Transition
import BoltDB.Store.RankCache

/-!
# Blocking pops from sorted sets

`sorted_set.go`, `zpop.go` and the replies of `zset_commands.go`. A `BZPOPMIN`, `BZPOPMAX` or `BZMPOP`
that finds its sorted sets empty leaves its channel with each of them, pops once more and waits. A
write that adds a member sends the key to the first channel of that key; the call that receives it
pops from the key.

A call acts step by step: one transaction, or one turn with the lock on the channels. Any number of
calls take their steps in any order. The store keeps the lock of a key from the transaction of a write
to its announcement, which rules out some of these orders.

* `removed_pop` — a pop returns what it takes out of the records.
* `blocking_zset_delivery` — what the pops of a call have removed is in the reply of that call, and no
  call that has timed out or was served on another key has used up a wake-up.
-/

namespace BoltDB.Store.BlockingZSets

open Bytes KeyValue Transition SortedSets RankCache List Function

/-! ## What a pop removes -/

/-- A member of a sorted set, with its key and its score. -/
abbrev Item := Bytes × Bytes × F64

/-- What was a member before and is none afterwards. -/
def removed (key : Bytes) (before after : Db) : Multiset Item :=
  (members key before \ members key after).val.map fun m => (key, m, scoreOf key m before)

def items (key : Bytes) (ms : List (Bytes × F64)) : Multiset Item := ms.map fun m => (key, m)

/-- The index records name members, each of them once and with its score, and the count in the meta
record is not negative. -/
def Indexed (key : Bytes) (db : Db) : Prop := Distinct (indexEntries key db) ∧
    (∀ e ∈ indexEntries key db, e.1 ∈ members key db ∧ e.2 = scoreOf key e.1 db) ∧
    ∀ m ∈ (getMeta key db).toOption.join, 0 ≤ m.card

instance (key : Bytes) (db : Db) : Decidable (Indexed key db) := by
  unfold Indexed Distinct
  infer_instance

section Pops

variable {max : Bool} {key : Bytes} {db : Db} {count : Int64} {ms : List (Bytes × F64)} {now : Nat}

/-- What `zRevRangeMembersByRank` reads are some of the members, in the other order. -/
theorem revByRank_eq {start stop : Int64} (h : zRevRangeMembersByRank key start stop db = .ok ms) :
    ms = [] ∨
      ∃ m ms', getMeta key db = .ok (some m) ∧ ∃ r, normalizeRankRange m.card start stop = some r ∧
        zRangeMembersByRank key (m.card - 1 - r.2) (m.card - 1 - r.1) db = .ok ms' ∧
        ms = ms'.reverse := by
  obtain ⟨mt, hmt, h⟩ := View.bind_eq_ok.mp h
  cases mt with
  | none =>
    cases h
    exact .inl rfl
  | some mt =>
    dsimp only at h
    cases hrange : normalizeRankRange mt.card start stop with
    | none =>
      rw [hrange] at h
      cases h
      exact .inl rfl
    | some r =>
      rw [hrange] at h
      obtain ⟨ms', hms', h⟩ := View.bind_eq_ok.mp h
      cases h
      exact .inr ⟨mt, ms', hmt, r, hrange, hms', rfl⟩

/-- The members that a pop reads. -/
def candidates (max : Bool) (key : Bytes) (count : Int64) : View Err (List (Bytes × F64)) :=
  (if max then zRevRangeMembersByRank else zRangeMembersByRank) key 0 (count - 1)

theorem candidates_subperm (h : candidates max key count db = .ok ms) :
    ms.Subperm (indexEntries key db) := by
  cases max with
  | false => exact (byRank_sublist h).subperm
  | true =>
    rcases revByRank_eq h with rfl | ⟨m, ms', -, r, -, hms', rfl⟩
    · exact nil_subperm
    · exact (reverse_perm ms').subperm_right.mpr (byRank_sublist hms').subperm

/-- A range of one rank. -/
theorem normalizeRankRange_self {total x : Int64} (htotal : 0 ≤ total) (hx : 0 ≤ x) :
    normalizeRankRange total x x = if x < total then some (x, x) else none := by
  have hx' : ¬ x < 0 := Int64.not_lt.mpr hx
  simp only [normalizeRankRange, if_neg hx']
  by_cases hlt : x < total
  · have hne : total ≠ 0 := fun h => hx' (h ▸ hlt)
    rw [if_neg (Int64.not_le.mpr hlt), if_pos hlt, if_neg]
    rintro (hself | hzero)
    · exact Int64.lt_irrefl hself
    · exact hne hzero
  · rw [if_pos (Int64.not_lt.mp hlt), if_neg hlt, if_pos]
    by_cases hzero : total = 0
    · exact .inr hzero
    · refine .inl (Int64.lt_iff_toInt_lt.mpr ?_)
      have hle := Int64.le_iff_toInt_le.mp (Int64.not_lt.mp hlt)
      have hpos := Int64.lt_iff_toInt_lt.mp (Int64.lt_of_le_of_ne htotal (Ne.symm hzero))
      have hone := toInt_sub_one_of_pos hpos
      omega

theorem length_byRank_self {x : Int64} (hcount : ∀ m ∈ (getMeta key db).toOption.join, 0 ≤ m.card)
    (hx : 0 ≤ x) (h : zRangeMembersByRank key x x db = .ok ms) : ms.length ≤ 1 := by
  obtain ⟨mt, hmt, h⟩ := View.bind_eq_ok.mp h
  cases mt with
  | none =>
    cases h
    exact Nat.zero_le 1
  | some mt =>
    have hnonneg : 0 ≤ mt.card := hcount mt (by rw [hmt]; rfl)
    dsimp only at h
    rw [normalizeRankRange_self hnonneg hx] at h
    by_cases hlt : x < mt.card
    · rw [if_pos hlt] at h
      cases h
      refine (length_filterMap_le _ _).trans ?_
      simp only [length_drop, length_take]
      omega
    · rw [if_neg hlt] at h
      cases h
      exact Nat.zero_le 1

/-- One is popped at most, if one is asked for. -/
theorem length_candidates_one (hcount : ∀ m ∈ (getMeta key db).toOption.join, 0 ≤ m.card)
    (h : candidates max key 1 db = .ok ms) : ms.length ≤ 1 := by
  cases max with
  | false => exact length_byRank_self hcount (Int64.le_refl 0) h
  | true =>
    rcases revByRank_eq h with rfl | ⟨m, ms', hm, r, hr, hms', rfl⟩
    · exact Nat.zero_le 1
    · have hnonneg : 0 ≤ m.card := hcount m (by rw [hm]; rfl)
      have hr : normalizeRankRange m.card 0 0 = some r := hr
      rw [normalizeRankRange_self hnonneg (Int64.le_refl 0)] at hr
      split at hr
      case isTrue hpos =>
        cases hr
        rw [length_reverse]
        refine length_byRank_self hcount ?_ hms'
        have hone := toInt_sub_one_of_pos (Int64.lt_iff_toInt_lt.mp hpos)
        have hpos' := Int64.lt_iff_toInt_lt.mp hpos
        rw [Int64.sub_zero, Int64.le_iff_toInt_le]
        omega
      case isFalse => cases hr

theorem members_zRemMember {m : Bytes} {b : Bool} {db' : Db}
    (h : zRemMember key m db = .ok (b, db')) :
    b = decide (m ∈ members key db) ∧ members key db' = (members key db).erase m := by
  rcases zRemMember_cases h with ⟨rfl, hm, rfl⟩ | ⟨rfl, hm, mt, -, hlower⟩
  · exact ⟨(decide_eq_false hm).symm, (Finset.erase_eq_of_notMem hm).symm⟩
  · refine ⟨(decide_eq_true hm).symm, ?_⟩
    rw [members_lowerCard hlower, members_dropMember]

/-- Different members that are all there are removed, and nothing else. -/
theorem zRemMembers_spec {acc out : List (Bytes × F64)} {db' : Db}
    (hdistinct : Distinct ms) (hin : ∀ m ∈ ms, m.1 ∈ members key db)
    (h : (ms.foldlM (fun acc m => do return if ← zRemMember key m.1 then acc ++ [m] else acc) acc :
      Txn Err (List (Bytes × F64))) db = .ok (out, db')) :
    out = acc ++ ms ∧ members key db' = members key db \ (ms.map Prod.fst).toFinset := by
  induction ms generalizing acc db with
  | nil =>
    cases h
    simp
  | cons m ms ih =>
    obtain ⟨acc', db₁, hstep, hrest⟩ := Txn.bind_eq_ok.mp h
    obtain ⟨b, db₂, hrem, hstep⟩ := Txn.bind_eq_ok.mp hstep
    obtain ⟨rfl, hmembers⟩ := members_zRemMember hrem
    obtain ⟨rfl, rfl⟩ := Txn.pure_eq_ok.mp hstep
    obtain ⟨hnew, hdistinct⟩ := nodup_cons.mp hdistinct
    -- the others are not the member that is gone now
    have hleft : ∀ m' ∈ ms, m'.1 ∈ members key db₂ := fun m' hm' => by
      rw [hmembers, Finset.mem_erase]
      refine ⟨fun heq => hnew ?_, hin m' (mem_cons_of_mem m hm')⟩
      exact heq ▸ mem_map_of_mem hm'
    obtain ⟨hout, hafter⟩ := ih hdistinct hleft hrest
    refine ⟨?_, ?_⟩
    · rw [hout, decide_eq_true (hin m mem_cons_self), if_pos rfl, append_assoc, singleton_append]
    · rw [hafter, hmembers, map_cons, toFinset_cons, Finset.insert_eq, Finset.erase_eq,
        sdiff_sdiff_left]
      rfl

/-- What is removed, if it is given by its members and their scores. -/
theorem removed_eq_items {db' : Db} (hdistinct : Distinct ms)
    (hin : ∀ m ∈ ms, m.1 ∈ members key db ∧ m.2 = scoreOf key m.1 db)
    (hafter : members key db' = members key db \ (ms.map Prod.fst).toFinset) :
    removed key db db' = items key ms := by
  have hsub : (ms.map Prod.fst).toFinset ⊆ members key db := fun m hm => by
    obtain ⟨e, he, rfl⟩ := mem_map.mp (mem_toFinset.mp hm)
    exact (hin e he).1
  rw [removed, hafter, Finset.sdiff_sdiff_eq_self hsub, toFinset_val, hdistinct.dedup,
    Multiset.map_coe, map_map, items]
  refine congrArg _ (map_congr_left fun m hm => ?_)
  rw [comp_apply, ← (hin m hm).2]

theorem removed_self : removed key (visible now db) db = 0 := by
  have hsub : members key (visible now db) ⊆ members key db := fun m hm => by
    rw [mem_members, dataOf, Option.isSome_map] at hm ⊢
    rw [getElem?_visible] at hm
    exact Option.isSome_of_isSome_filter _ _ hm
  rw [removed, Finset.sdiff_eq_empty_iff_subset.mpr hsub]
  rfl

/-- A pop leaves the store as it is, or removes the members that it has read. -/
theorem zPop_cases (hindexed : Indexed key (visible (unix now) db)) :
    (∃ e, zPop max now key count db = (.error e, db)) ∨ zPop max now key count db = (.ok [], db) ∨
    ∃ ms db', zPop max now key count db = (.ok ms, db') ∧
      candidates max key count (visible (unix now) db) = .ok ms ∧
      removed key (visible (unix now) db) db' = items key ms := by
  unfold zPop
  by_cases hcount : count ≤ 0
  · rw [if_pos hcount]
    exact .inr (.inl rfl)
  rw [if_neg hcount]
  cases hm : zPopTxn max key count (visible (unix now) db) with
  | error e => exact .inl ⟨e, Run.update_of_error hm⟩
  | ok r =>
    obtain ⟨ms, db'⟩ := r
    refine .inr (.inr ⟨ms, db', Run.update_eq_ok.mpr hm, ?_⟩)
    obtain ⟨_, -, hm⟩ := Txn.lift_bind_eq_ok.mp hm
    obtain ⟨cs, hcs, hm⟩ := Txn.lift_bind_eq_ok.mp hm
    have hsub := candidates_subperm hcs
    have hdistinct : Distinct cs := by
      obtain ⟨l, hperm, hl⟩ := hsub
      exact (hperm.map Prod.fst).nodup_iff.mp (hindexed.1.sublist hl)
    have hin := fun m (hm : m ∈ cs) => hindexed.2.1 m (hsub.subset hm)
    obtain ⟨hout, hafter⟩ := zRemMembers_spec hdistinct (fun m hm => (hin m hm).1) hm
    subst hout
    exact ⟨hcs, removed_eq_items hdistinct hin hafter⟩

/-- The members in the result of a pop. -/
def popped : Except Err (List (Bytes × F64)) → List (Bytes × F64)
  | .ok ms => ms
  | .error _ => []

/-- A pop returns what it removes. -/
theorem removed_pop (hindexed : Indexed key (visible (unix now) db)) :
    removed key (visible (unix now) db) (zPop max now key count db).2 =
      items key (popped (zPop max now key count db).1) := by
  rcases zPop_cases hindexed with ⟨e, h⟩ | h | ⟨ms, db', h, -, hremoved⟩
  · rw [h]
    exact removed_self
  · rw [h]
    exact removed_self
  · rw [h]
    exact hremoved

theorem length_pop_one (hindexed : Indexed key (visible (unix now) db)) :
    (popped (zPop max now key 1 db).1).length ≤ 1 := by
  rcases zPop_cases hindexed with ⟨e, h⟩ | h | ⟨ms, db', h, hread, -⟩
  · rw [h]
    exact Nat.zero_le 1
  · rw [h]
    exact Nat.zero_le 1
  · rw [h]
    exact length_candidates_one hindexed.2.2 hread

end Pops

/-! ## Calls -/

/-- The methods that may add members. -/
inductive Write
  | zAdd (key : Bytes) (members : List (Bytes × F64))
  | zAddWithOptions (key : Bytes) (o : ZAddOptions) (members : List (Bytes × F64))
  | zIncrBy (key member : Bytes) (increment : F64)
  | zUnionStore (destination : Bytes) (keys : List Bytes) (weights : List F64) (aggregate : Bytes)
  | zInterStore (destination : Bytes) (keys : List Bytes) (weights : List F64) (aggregate : Bytes)
  | zDiffStore (destination : Bytes) (keys : List Bytes)

/-- `ZRANGESTORE`, which is three transactions. -/
structure RangeStore where
  destination : Bytes
  source : Bytes
  range : StoreRange
  rev : Bool
  offset : Int64
  count : Int64

namespace Write

def key : Write → Bytes
  | zAdd key _ | zAddWithOptions key _ _ | zIncrBy key _ _ => key
  | zUnionStore destination _ _ _ | zInterStore destination _ _ _ | zDiffStore destination _ => destination

/-- The transaction, with whether its key is announced: by `ZADD` for a new member, by the `*STORE`
methods for any. `ZINCRBY` announces nothing. -/
def run (now : Nat) : Write → Run Err Bool
  | zAdd key members => if members.isEmpty then pure false else update now (zAddMembers key members)
  | zAddWithOptions key o members =>
    if members.isEmpty then pure false
    else update now do
      let ops ← zAddPlanned key [1] (planWithOptions o) members
      return ops.any (·.old.isNone)
  | zIncrBy key member increment => do
    let _ ← SortedSets.zIncrBy now key member increment
    return false
  | zUnionStore destination keys weights aggregate => do
    return decide (0 < (← SortedSets.zUnionStore now destination keys weights aggregate))
  | zInterStore destination keys weights aggregate => do
    return decide (0 < (← SortedSets.zInterStore now destination keys weights aggregate))
  | zDiffStore destination keys => do
    return decide (0 < (← SortedSets.zDiffStore now destination keys))

end Write

inductive Cmd
  | write (w : Write)
  | zRangeStore (z : RangeStore)
  | zPop (max : Bool) (key : Bytes) (count : Int64)
  | zMPop (max : Bool) (keys : List Bytes) (count : Int64)
  | bZPop (max : Bool) (keys : List Bytes)
  | bZMPop (max : Bool) (keys : List Bytes) (count : Int64)

inductive Reply
  | done
  | popped (key : Bytes) (ms : List (Bytes × F64))
  | nil
  | error (e : Err)

/-- What a client gets. -/
def Reply.items : Reply → Multiset Item
  | popped key ms => BlockingZSets.items key ms
  | _ => 0

/-- `ZMPOP`, `BZMPOP`, `BZPOPMAX` and `BZPOPMIN`: an empty key stands for nothing. -/
def keyReply (key : Bytes) (ms : List (Bytes × F64)) : Reply :=
  if key = [] ∨ ms = [] then .nil else .popped key ms

/-- Where a call is. -/
inductive Phase
  | write (w : Write)
  | select (z : RangeStore)
  | clear (destination : Bytes) (members : List (Bytes × F64))
  | announce (key : Bytes)
  /-- the keys that are still to be popped from before the call waits -/
  | look (keys : List Bytes)
  | register
  /-- the same, with the channel registered -/
  | recheck (keys : List Bytes)
  | leave (key : Bytes) (m : Bytes × F64)
  /-- `BZMPOP` pops for a second time -/
  | again (key : Bytes)
  | blocked
  | woken (key : Bytes)
  /-- the time is over, or the client or the store is gone -/
  | expired
  | gone
  | ended (r : Reply)

namespace Cmd

def start : Cmd → Phase
  | write w => .write w
  | zRangeStore z => .select z
  | zPop _ key _ => .look [key]
  | zMPop _ keys _ | bZPop _ keys | bZMPop _ keys _ => .look keys

def max : Cmd → Bool
  | write _ | zRangeStore _ => false
  | zPop max _ _ | zMPop max _ _ | bZPop max _ | bZMPop max _ _ => max

def count : Cmd → Int64
  | write _ | zRangeStore _ | bZPop _ _ => 1
  | zPop _ _ count | zMPop _ _ count | bZMPop _ _ count => count

/-- The keys that a reply can name, and that the call waits for. -/
def keys : Cmd → List Bytes
  | write _ | zRangeStore _ | zPop _ _ _ => []
  | zMPop _ keys _ | bZPop _ keys | bZMPop _ keys _ => keys

/-- No key is left to look at. -/
def notFound : Cmd → Phase
  | write _ | zRangeStore _ | zPop _ _ _ | zMPop _ _ _ => .ended .nil
  | bZPop _ _ | bZMPop _ _ _ => .register

/-- A member was found; `BZMPOP` takes an empty key for no key and goes on to wait. -/
def found (key : Bytes) (m : Bytes × F64) (ms : List (Bytes × F64)) : Cmd → Phase
  | zPop _ _ _ => .ended (.popped key (m :: ms))
  | write _ | zRangeStore _ | zMPop _ _ _ => .ended (keyReply key (m :: ms))
  | bZPop _ _ => .ended (keyReply key [m])
  | bZMPop _ _ _ => if key = [] then .register else .ended (.popped key (m :: ms))

/-- After the channel has left the keys. `BZMPOP` does not keep the member. -/
def left (key : Bytes) (m : Bytes × F64) : Cmd → Phase
  | bZMPop _ _ _ => .again key
  | _ => .ended (keyReply key [m])

/-- What is popped for a key that was received. -/
def served (key : Bytes) (ms : List (Bytes × F64)) : Cmd → Reply
  | bZPop _ _ => keyReply key (ms.take 1)
  | _ => keyReply key ms

def isBZMPop : Cmd → Bool
  | bZMPop _ _ _ => true
  | _ => false

end Cmd

/-! ## The system -/

/-- A call is known by its number, which is also its channel. A channel holds one key at most. -/
abbrev Chan := Nat

structure State where
  db : Db
  chans : Bytes → List Chan := fun _ => []
  buffer : Chan → Option Bytes := fun _ => none
  call : Chan → Option (Cmd × Phase) := fun _ => none
  calls : Nat := 0
  /-- what the pops of a call have removed -/
  took : Chan → Multiset Item := fun _ => 0
  /-- every wake-up, and the channel it was for -/
  wakeups : List (Chan × Bytes) := []

namespace State

/-- `notifyBlockingZPop`: if the first channel is full the key is not sent. -/
def notifyBlockingZPop (key : Bytes) (s : State) : State :=
  match s.chans key with
  | [] => s
  | ch :: rest =>
    match s.buffer ch with
    | some _ => { s with wakeups := (ch, key) :: s.wakeups }
    | none => { s with
        buffer := Function.update s.buffer ch (some key)
        chans := Function.update s.chans key rest
        wakeups := (ch, key) :: s.wakeups }

def register (ch : Chan) (keys : List Bytes) (s : State) : State :=
  { s with chans := keys.foldl (fun chans key => Function.update chans key (chans key ++ [ch])) s.chans }

def unregisterBlockingZPop (ch : Chan) (keys : List Bytes) (s : State) : State :=
  { s with chans := keys.foldl (fun chans key => Function.update chans key ((chans key).erase ch)) s.chans }

/-- A pop, by a call. -/
def pop (ch : Chan) (max : Bool) (now : Nat) (key : Bytes) (count : Int64) (s : State) : State :=
  let db := (zPop max now key count s.db).2
  { s with
    db
    took := Function.update s.took ch (s.took ch + removed key (visible (unix now) s.db) db) }

/-- The call goes on. -/
def move (ch : Chan) (cmd : Cmd) (phase : Phase) (s : State) : State :=
  { s with call := Function.update s.call ch (some (cmd, phase)) }

/-- The next action of a call. -/
def act (ch : Chan) (now : Nat) (s : State) (cmd : Cmd) : Phase → Option State
  | .write w =>
    let r := w.run now s.db
    some (move ch cmd (match r.1 with
      | .ok true => .announce w.key
      | .ok false => .ended .done
      | .error e => .ended (.error e)) { s with db := r.2 })
  | .select z =>
    some (s.move ch cmd
      (match view now (zRangeStoreMembers z.source z.rev z.offset z.count z.range) s.db with
        | (.ok members, _) => .clear z.destination members
        | (.error e, _) => .ended (.error e)))
  | .clear destination members =>
    let r := del now destination s.db
    some (move ch cmd (match r.1 with
      | .ok _ => .write (.zAdd destination members)
      | .error e => .ended (.error e)) { s with db := r.2 })
  | .announce key => some ((s.notifyBlockingZPop key).move ch cmd (.ended .done))
  | .look [] => some (s.move ch cmd cmd.notFound)
  | .look (key :: keys) =>
    some ((s.pop ch cmd.max now key cmd.count).move ch cmd
      (match (zPop cmd.max now key cmd.count s.db).1 with
        | .error e => .ended (.error e)
        | .ok [] => .look keys
        | .ok (m :: ms) => cmd.found key m ms))
  | .register => some ((s.register ch cmd.keys).move ch cmd (.recheck cmd.keys))
  | .recheck [] => some (s.move ch cmd .blocked)
  | .recheck (key :: keys) =>
    some ((s.pop ch cmd.max now key 1).move ch cmd
      (match (zPop cmd.max now key 1 s.db).1 with
        | .ok (m :: _) => .leave key m
        | _ => .recheck keys))
  | .leave key m => some ((s.unregisterBlockingZPop ch cmd.keys).move ch cmd (cmd.left key m))
  | .again key =>
    some ((s.pop ch cmd.max now key cmd.count).move ch cmd
      (match (zPop cmd.max now key cmd.count s.db).1 with
        | .error e => .ended (.error e)
        | .ok ms => .ended (keyReply key ms)))
  | .woken key =>
    some ((s.pop ch cmd.max now key cmd.count).move ch cmd
      (.ended (cmd.served key (popped (zPop cmd.max now key cmd.count s.db).1))))
  | .expired => some ((s.unregisterBlockingZPop ch cmd.keys).move ch cmd .gone)
  | .blocked | .gone | .ended _ => none

end State

inductive Act
  | start (cmd : Cmd)
  | act (ch : Chan) (now : Nat)
  | receive (ch : Chan)
  | timeout (ch : Chan)

def State.step (s : State) : Act → Option State
  | .start cmd => some ({ s with calls := s.calls + 1 }.move s.calls cmd cmd.start)
  | .act ch now =>
    match s.call ch with
    | some (cmd, phase) => s.act ch now cmd phase
    | none => none
  | .receive ch =>
    match s.call ch, s.buffer ch with
    | some (cmd, .blocked), some key =>
      some ({ s with buffer := Function.update s.buffer ch none }.move ch cmd (.woken key))
    | _, _ => none
  | .timeout ch =>
    match s.call ch with
    | some (cmd, .blocked) => some (s.move ch cmd .expired)
    | _ => none

/-! ## What is promised -/

namespace Phase

/-- What the reply has given to the client. -/
def returned : Phase → Multiset Item
  | ended r => r.items
  | _ => 0

/-- The call is over, or waits for its channel. -/
def atRest : Phase → Bool
  | blocked | gone | ended _ => true
  | _ => false

/-- A wake-up for the key is of no use here: the call has timed out, or was served on another key. -/
def pastUse (key : Bytes) : Phase → Bool
  | expired | gone => true
  | leave key' _ | again key' | ended (.popped key' _) => key' ≠ key
  | _ => false

/-- The call has registered its channel and has got nothing yet. -/
def isWaiting : Phase → Bool
  | recheck _ | blocked => true
  | _ => false

def isBlocked : Phase → Bool
  | blocked => true
  | _ => false

end Phase

namespace State

/-- A call that is over or waits has returned what its pops have removed, and nothing else. -/
def Delivered (s : State) : Prop :=
  ∀ ch cmd phase, s.call ch = some (cmd, phase) → phase.atRest = true → s.took ch = phase.returned

/-- A wake-up for the key went to a call that has no use for it. -/
def Stale (s : State) (ch : Chan) (key : Bytes) : Prop :=
  (ch, key) ∈ s.wakeups ∧ (s.call ch).any (fun c => c.2.pastUse key) = true

/-- A call is blocked on the key and has no wake-up. -/
def WaitsFor (s : State) (ch : Chan) (key : Bytes) : Prop :=
  s.buffer ch = none ∧ (s.call ch).any (fun c => c.2.isBlocked && decide (key ∈ c.1.keys)) = true

/-- Such a wake-up is missing: there are members, and a call waits for them. -/
def Starved (s : State) : Prop := ∃ now ch ch' key, s.Stale ch key ∧ s.WaitsFor ch' key ∧
    (members key (visible (unix now) s.db)).Nonempty

end State

/-! ## The condition on steps -/

/-- The records are in order where a pop is made. A member that `BZMPOP` pops when it looks again is
lost, so it finds none there; another call finds it only on the key of a wake-up that it may have. A
wake-up goes to a call that waits and has none. -/
def Allows (s : State) (ch : Chan) (now : Nat) (cmd : Cmd) : Phase → Prop
  | .announce key =>
    match s.chans key with
    | [] => True
    | first :: _ => s.buffer first = none ∧ (s.call first).any (fun c => c.2.isWaiting) = true
  | .look (key :: _) | .woken key => Indexed key (visible (unix now) s.db)
  | .recheck (key :: _) => Indexed key (visible (unix now) s.db) ∧
      (popped (zPop cmd.max now key 1 s.db).1 = [] ∨
        cmd.isBZMPop = false ∧ ∀ key' ∈ s.buffer ch, key' = key)
  | _ => True

/-- No call but `ZPOPMAX` and `ZPOPMIN` pops from the empty key, and none times out with a wake-up in
its channel. -/
def Condition (s : State) : Act → Prop
  | .start cmd => [] ∉ cmd.keys
  | .act ch now =>
    match s.call ch with
    | some (cmd, phase) => Allows s ch now cmd phase
    | none => True
  | .receive _ => True
  | .timeout ch => s.buffer ch = none

instance (s : State) (ch : Chan) (now : Nat) (cmd : Cmd) (phase : Phase) :
    Decidable (Allows s ch now cmd phase) := by
  unfold Allows
  split
  · split <;> infer_instance
  all_goals infer_instance

instance (s : State) (a : Act) : Decidable (Condition s a) := by
  unfold Condition
  split
  · infer_instance
  · split <;> infer_instance
  all_goals infer_instance

/-! ## The invariant -/

namespace Phase

/-- What a call has and has not returned yet, or has returned. -/
def held : Phase → Multiset Item
  | leave key m => items key [m]
  | ended r => r.items
  | _ => 0

/-- The keys that a call with a channel may still answer with. -/
def pending : Phase → List Bytes
  | recheck keys => keys
  | leave key _ | woken key => [key]
  | _ => []

/-- The wake-ups that a call can have got: the one in its channel while it waits, then the one for the
key that it is served on. -/
def Accepts (buffer : Option Bytes) (key : Bytes) : Phase → Prop
  | recheck _ | blocked => buffer = some key
  | leave key' _ | woken key' | ended (.popped key' _) => key' = key
  | ended _ => True
  | _ => False

end Phase

/-- What holds of a call, by what it has taken, its channel and the wake-ups for it. -/
structure Fair (took : Multiset Item) (buffer : Option Bytes) (sent : Bytes → Prop) (cmd : Cmd)
    (phase : Phase) : Prop where
  named : [] ∉ cmd.keys
  looks : ∀ keys, phase = .look keys → [] ∈ keys → ∃ max key count, cmd = .zPop max key count
  pending : [] ∉ phase.pending
  took : took = phase.held
  keeps : ∀ key m, phase = .leave key m → cmd.isBZMPop = false
  once : ∀ key, phase ≠ .again key
  sent : ∀ key, sent key → phase.Accepts buffer key

/-- A wake-up for the key went to the channel. -/
def State.Sent (s : State) (ch : Chan) (key : Bytes) : Prop := (ch, key) ∈ s.wakeups

structure Inv (s : State) : Prop where
  fresh : ∀ ch, s.calls ≤ ch → s.call ch = none ∧ s.took ch = 0 ∧ ∀ key, ¬ s.Sent ch key
  noChannel : s.chans [] = []
  noKey : ∀ ch, s.buffer ch ≠ some []
  fair : ∀ ch cmd phase, s.call ch = some (cmd, phase) →
    Fair (s.took ch) (s.buffer ch) (s.Sent ch) cmd phase

theorem inv_init (db : Db) : Inv { db } where
  fresh _ _ := ⟨rfl, rfl, fun _ h => not_mem_nil h⟩
  noChannel := rfl
  noKey _ h := by cases h
  fair _ _ _ h := by cases h

theorem Inv.delivered {s : State} (h : Inv s) : s.Delivered := by
  intro ch cmd phase hcall hrest
  rw [(h.fair ch cmd phase hcall).took]
  cases phase with
  | blocked | gone | ended => rfl
  | _ => cases hrest

theorem Inv.not_starved {s : State} (h : Inv s) : ¬ s.Starved := by
  rintro ⟨now, ch, ch', key, ⟨hsent, hpast⟩, -, -⟩
  obtain ⟨⟨cmd, phase⟩, hcall, hpast⟩ := (Option.any_eq_true _ _).mp hpast
  have haccepts := (h.fair ch cmd phase hcall).sent key hsent
  cases phase with
  | leave key' m => exact of_decide_eq_true hpast haccepts
  | again key' => exact haccepts
  | expired | gone => exact haccepts
  | ended r =>
    cases r with
    | popped key' ms => exact of_decide_eq_true hpast haccepts
    | _ => cases hpast
  | _ => cases hpast

/-- One call moves; the others stay as they are, and so does what concerns them. -/
theorem Inv.of_move {s s' : State} {ch : Chan} {cmd cmd' : Cmd} {phase phase' : Phase} (h : Inv s)
    (hcall : s.call ch = some (cmd, phase))
    (hmove : s'.call = Function.update s.call ch (some (cmd', phase')))
    (hcalls : s'.calls = s.calls) (htook : ∀ ch', ch' ≠ ch → s'.took ch' = s.took ch')
    (hbuffer : ∀ ch', ch' ≠ ch → s'.buffer ch' = s.buffer ch') (hkey : s'.buffer ch ≠ some [])
    (hchannel : s'.chans [] = []) (hwakeups : s'.wakeups = s.wakeups)
    (hfair : Fair (s'.took ch) (s'.buffer ch) (s.Sent ch) cmd' phase') : Inv s' := by
  have hsent : s'.Sent = s.Sent := by
    funext ch key
    rw [State.Sent, hwakeups, State.Sent]
  refine ⟨fun ch' hch' => ?_, hchannel, fun ch' => ?_, fun ch' cmd₁ phase₁ hcall₁ => ?_⟩
  · rw [hcalls] at hch'
    obtain ⟨hnone, hzero, hnew⟩ := h.fresh ch' hch'
    have hne : ch' ≠ ch := by
      rintro rfl
      rw [hcall] at hnone
      cases hnone
    rw [hmove, update_of_ne hne, htook ch' hne, hsent]
    exact ⟨hnone, hzero, hnew⟩
  · by_cases hne : ch' = ch
    · exact hne ▸ hkey
    · rw [hbuffer ch' hne]
      exact h.noKey ch'
  · rw [hsent]
    rw [hmove] at hcall₁
    by_cases hne : ch' = ch
    · subst hne
      rw [update_self] at hcall₁
      cases hcall₁
      exact hfair
    · rw [update_of_ne hne] at hcall₁
      rw [htook ch' hne, hbuffer ch' hne]
      exact h.fair ch' cmd₁ phase₁ hcall₁

section Steps

variable {s : State} {ch : Chan} {cmd : Cmd} {phase : Phase} {key : Bytes} {sent : Bytes → Prop}
  {keys : List Bytes} {took : Multiset Item} {now : Nat} {buffer : Option Bytes} {s' : State}

/-- The call goes on, with the wake-ups that it had. -/
theorem Fair.go {took' : Multiset Item} {phase' : Phase} (h : Fair took buffer sent cmd phase)
    (hheld : took' = phase'.held)
    (hlooks : ∀ keys, phase' = .look keys → [] ∈ keys → ∃ max key count, cmd = .zPop max key count)
    (hpending : [] ∉ phase'.pending) (hkeeps : ∀ key m, phase' ≠ .leave key m)
    (honce : ∀ key, phase' ≠ .again key)
    (hsent : ∀ key, phase.Accepts buffer key → phase'.Accepts buffer key) :
    Fair took' buffer sent cmd phase' :=
  ⟨h.named, hlooks, hpending, hheld, fun key m hleave => absurd hleave (hkeeps key m),
    honce, fun key hkey => hsent key (h.sent key hkey)⟩

theorem Inv.pop_move {max : Bool} {count : Int64} {phase' : Phase} (h : Inv s)
    (hcall : s.call ch = some (cmd, phase)) (hheld : phase.held = 0)
    (hindexed : Indexed key (visible (unix now) s.db))
    (hfair : Fair (items key (popped (zPop max now key count s.db).1)) (s.buffer ch) (s.Sent ch) cmd
      phase') :
    Inv ((s.pop ch max now key count).move ch cmd phase') := by
  refine h.of_move hcall rfl rfl (fun ch' hne => update_of_ne hne _ _) (fun _ _ => rfl)
    (h.noKey ch) h.noChannel rfl ?_
  have htook : (s.pop ch max now key count).took ch =
      items key (popped (zPop max now key count s.db).1) := by
    show Function.update s.took ch (s.took ch + _) ch = _
    rw [update_self, (h.fair ch cmd phase hcall).took, hheld]
    exact removed_pop hindexed
  show Fair ((s.pop ch max now key count).took ch) (s.buffer ch) (s.Sent ch) cmd phase'
  rw [htook]
  exact hfair

theorem foldl_update_of_notMem {f : List Chan → List Chan} {chans : Bytes → List Chan}
    (h : key ∉ keys) :
    keys.foldl (fun chans key => Function.update chans key (f (chans key))) chans key = chans key := by
  induction keys generalizing chans with
  | nil => rfl
  | cons k keys ih =>
    obtain ⟨hne, h⟩ := not_or.mp (mt mem_cons.mpr h)
    rw [foldl_cons, ih h, update_of_ne hne]

theorem chans_register (h : key ∉ keys) : (s.register ch keys).chans key = s.chans key :=
  foldl_update_of_notMem h (f := (· ++ [ch]))

theorem chans_unregisterBlockingZPop (h : key ∉ keys) :
    (s.unregisterBlockingZPop ch keys).chans key = s.chans key :=
  foldl_update_of_notMem h (f := (·.erase ch))

theorem Inv.notify (h : Inv s)
    (hallows : ∀ first rest, s.chans key = first :: rest →
      s.buffer first = none ∧ (s.call first).any (fun c => c.2.isWaiting) = true) :
    Inv (s.notifyBlockingZPop key) := by
  unfold State.notifyBlockingZPop
  cases hchans : s.chans key with
  | nil => exact h
  | cons first rest =>
    obtain ⟨hbuffer, hwaits⟩ := hallows first rest hchans
    obtain ⟨⟨cmd, phase⟩, hcall, hwaits⟩ := (Option.any_eq_true _ _).mp hwaits
    have hkey : key ≠ [] := by
      rintro rfl
      rw [h.noChannel] at hchans
      cases hchans
    dsimp only
    rw [hbuffer]
    refine ⟨fun ch hch => ?_, ?_, fun ch => ?_, fun ch cmd' phase' hcall' => ?_⟩
    · obtain ⟨hnone, hzero, hnew⟩ := h.fresh ch hch
      refine ⟨hnone, hzero, fun k hk => ?_⟩
      rcases mem_cons.mp hk with heq | hk
      · cases heq
        rw [hcall] at hnone
        cases hnone
      · exact hnew k hk
    · show Function.update s.chans key rest [] = []
      rw [update_of_ne hkey.symm]
      exact h.noChannel
    · show Function.update s.buffer first (some key) ch ≠ some []
      by_cases hne : ch = first
      · rw [hne, update_self]
        exact fun heq => hkey (Option.some.inj heq)
      · rw [update_of_ne hne]
        exact h.noKey ch
    · have hcall' : s.call ch = some (cmd', phase') := hcall'
      have hfair := h.fair ch cmd' phase' hcall'
      show Fair (s.took ch) (Function.update s.buffer first (some key) ch) _ cmd' phase'
      by_cases hne : ch = first
      · -- nothing was sent before, so the key in the channel is the only one
        subst hne
        rw [hcall] at hcall'
        cases hcall'
        rw [update_self]
        have hnone : ∀ k, ¬ s.Sent ch k := fun k hk => by
          have haccepts := hfair.sent k hk
          rw [hbuffer] at haccepts
          cases phase with
          | recheck | blocked => cases haccepts
          | _ => cases hwaits
        refine { hfair with sent := ?_ }
        intro k hk
        rcases mem_cons.mp hk with heq | hk
        · cases heq
          cases phase with
          | recheck | blocked => rfl
          | _ => cases hwaits
        · exact absurd hk (hnone k)
      · rw [update_of_ne hne]
        refine { hfair with sent := ?_ }
        intro k hk
        rcases mem_cons.mp hk with heq | hk
        · cases heq
          exact absurd rfl hne
        · exact hfair.sent k hk

theorem call_notifyBlockingZPop (key : Bytes) (s : State) :
    (s.notifyBlockingZPop key).call = s.call := by
  unfold State.notifyBlockingZPop
  split
  · rfl
  · split <;> rfl

/-- The reply of a call that was looking, when it has found something. -/
theorem Fair.found {m : Bytes × F64} {ms : List (Bytes × F64)}
    (h : Fair took buffer sent cmd (.look (key :: keys)))
    (hone : cmd.count = 1 → (m :: ms).length ≤ 1) :
    Fair (items key (m :: ms)) buffer sent cmd (cmd.found key m ms) := by
  have hnone : ∀ k, ¬ sent k := fun k hk => h.sent k hk
  have hkey : (∃ max key count, cmd = .zPop max key count) ∨ key ≠ [] := by
    by_cases hkey : key = []
    · exact .inl (h.looks _ rfl (hkey ▸ mem_cons_self))
    · exact .inr hkey
  have hover : ∀ r : Reply, items key (m :: ms) = r.items →
      Fair (items key (m :: ms)) buffer sent cmd (.ended r) := fun r hr =>
    ⟨h.named, nofun, not_mem_nil, hr, nofun, nofun, fun k hk => absurd hk (hnone k)⟩
  cases cmd with
  | zPop => exact hover _ rfl
  | write | zRangeStore | zMPop =>
    refine hover _ ?_
    rw [keyReply, if_neg]
    · rfl
    · simpa using hkey
  | bZPop =>
    have hms : ms = [] := by simpa using hone rfl
    subst hms
    refine hover _ ?_
    rw [keyReply, if_neg]
    · rfl
    · simpa using hkey
  | bZMPop =>
    have hkey : key ≠ [] := by simpa using hkey
    show Fair _ _ _ _ (if key = [] then .register else .ended (.popped key (m :: ms)))
    rw [if_neg hkey]
    exact hover _ rfl

/-- With a count of one no more than one member is popped. -/
theorem length_popped (cmd : Cmd) (hindexed : Indexed key (visible (unix now) s.db))
    (hcount : cmd.count = 1) : (popped (zPop cmd.max now key cmd.count s.db).1).length ≤ 1 := by
  rw [hcount]
  exact length_pop_one hindexed

theorem Inv.act_look (h : Inv s) (hcall : s.call ch = some (cmd, .look (key :: keys)))
    (hindexed : Indexed key (visible (unix now) s.db))
    (hact : s.act ch now cmd (.look (key :: keys)) = some s') : Inv s' := by
  cases hact
  have hfair := h.fair ch cmd _ hcall
  refine h.pop_move hcall rfl hindexed ?_
  have hone := length_popped cmd hindexed
  generalize (zPop cmd.max now key cmd.count s.db).1 = r at hone ⊢
  rcases r with e | (_ | ⟨m, ms⟩)
  · exact hfair.go rfl nofun not_mem_nil nofun nofun nofun
  · refine hfair.go rfl ?_ not_mem_nil nofun nofun nofun
    rintro _ ⟨⟩ hmem
    exact hfair.looks _ rfl (mem_cons_of_mem key hmem)
  · exact hfair.found hone

theorem Inv.act_recheck (h : Inv s) (hcall : s.call ch = some (cmd, .recheck (key :: keys)))
    (hallows : Allows s ch now cmd (.recheck (key :: keys)))
    (hact : s.act ch now cmd (.recheck (key :: keys)) = some s') : Inv s' := by
  cases hact
  obtain ⟨hindexed, hfound⟩ := hallows
  have hfair := h.fair ch cmd _ hcall
  refine h.pop_move hcall rfl hindexed ?_
  have hone : (popped (zPop cmd.max now key 1 s.db).1).length ≤ 1 := length_pop_one hindexed
  have hnext : Fair 0 (s.buffer ch) (s.Sent ch) cmd (.recheck keys) :=
    hfair.go rfl nofun (fun hmem => hfair.pending (mem_cons_of_mem key hmem)) nofun nofun
      fun _ hkey => hkey
  generalize (zPop cmd.max now key 1 s.db).1 = r at hone hfound ⊢
  rcases r with e | (_ | ⟨m, ms⟩)
  · exact hnext
  · exact hnext
  · obtain rfl : ms = [] := by simpa [popped] using hone
    obtain ⟨hkeeps, hbuffer⟩ := hfound.resolve_left (cons_ne_nil _ _)
    refine ⟨hfair.named, nofun, ?_, rfl, fun _ _ _ => hkeeps, nofun, fun key' hsent => ?_⟩
    · exact fun hmem => hfair.pending (mem_singleton.mp hmem ▸ mem_cons_self)
    · exact (hbuffer key' (hfair.sent key' hsent)).symm

theorem Inv.act_woken (h : Inv s) (hcall : s.call ch = some (cmd, .woken key))
    (hindexed : Indexed key (visible (unix now) s.db))
    (hact : s.act ch now cmd (.woken key) = some s') : Inv s' := by
  cases hact
  have hfair := h.fair ch cmd _ hcall
  refine h.pop_move hcall rfl hindexed ?_
  have hkey : key ≠ [] := fun hkey => hfair.pending (hkey ▸ mem_singleton_self _)
  have hone := length_popped cmd hindexed
  generalize popped (zPop cmd.max now key cmd.count s.db).1 = ms at hone ⊢
  have hserved : cmd.served key ms = keyReply key ms := by
    cases cmd with
    | bZPop => exact congrArg (keyReply key) (take_of_length_le (hone rfl))
    | _ => rfl
  rw [hserved, keyReply]
  cases ms with
  | nil =>
    rw [if_pos (.inr rfl)]
    exact hfair.go rfl nofun not_mem_nil nofun nofun fun _ _ => trivial
  | cons m ms =>
    rw [if_neg (by simp [hkey])]
    exact ⟨hfair.named, nofun, not_mem_nil, rfl, nofun, nofun, hfair.sent⟩

/-- A call that is not `BZMPOP` answers with the member that it has. -/
theorem Fair.left {m : Bytes × F64} (h : Fair took buffer sent cmd (.leave key m)) :
    cmd.left key m = .ended (.popped key [m]) := by
  have hkey : key ≠ [] := fun hkey => h.pending (hkey ▸ mem_singleton_self _)
  have hreply : keyReply key [m] = .popped key [m] := by
    rw [keyReply]
    simp [hkey]
  cases cmd with
  | bZMPop => cases h.keeps key m rfl
  | _ => exact congrArg Phase.ended hreply

theorem inv_act (h : Inv s) (hcall : s.call ch = some (cmd, phase))
    (hallows : Allows s ch now cmd phase) (hact : s.act ch now cmd phase = some s') : Inv s' := by
  have hfair := h.fair ch cmd phase hcall
  -- a step that only moves the call and, maybe, writes to the store
  have hmove : ∀ {db : Db} {phase' : Phase}, phase'.held = phase.held →
      (∀ keys, phase' = .look keys → [] ∈ keys → ∃ max key count, cmd = .zPop max key count) →
      [] ∉ phase'.pending → (∀ key m, phase' ≠ .leave key m) → (∀ key, phase' ≠ .again key) →
      (∀ key, phase.Accepts (s.buffer ch) key → phase'.Accepts (s.buffer ch) key) →
      Inv (State.move ch cmd phase' { s with db }) := fun h₁ h₂ h₃ h₄ h₅ h₆ =>
    h.of_move hcall rfl rfl (fun _ _ => rfl) (fun _ _ => rfl) (h.noKey ch) h.noChannel rfl
      (hfair.go (hfair.took.trans h₁.symm) h₂ h₃ h₄ h₅ h₆)
  cases phase with
  | write w =>
    cases hact
    rcases (w.run now s.db).1 with e | (_ | _)
    all_goals exact hmove rfl nofun not_mem_nil nofun nofun nofun
  | select z =>
    cases hact
    rcases view now (zRangeStoreMembers z.source z.rev z.offset z.count z.range) s.db with ⟨e | ms, -⟩
    all_goals exact hmove rfl nofun not_mem_nil nofun nofun nofun
  | clear destination ms =>
    cases hact
    rcases (del now destination s.db).1 with e | n
    all_goals exact hmove rfl nofun not_mem_nil nofun nofun nofun
  | announce key =>
    cases hact
    have hnotify : Inv (s.notifyBlockingZPop key) := h.notify fun first rest hchans => by
      simpa only [Allows, hchans] using hallows
    have hcall' : (s.notifyBlockingZPop key).call ch = some (cmd, .announce key) := by
      rw [call_notifyBlockingZPop]
      exact hcall
    have hfair' := hnotify.fair ch cmd _ hcall'
    refine hnotify.of_move hcall' rfl rfl (fun _ _ => rfl) (fun _ _ => rfl) (hnotify.noKey ch)
      hnotify.noChannel rfl ?_
    exact hfair'.go hfair'.took nofun not_mem_nil nofun nofun nofun
  | look keys =>
    cases keys with
    | nil =>
      cases hact
      cases cmd
      all_goals exact hmove rfl nofun not_mem_nil nofun nofun nofun
    | cons key keys => exact h.act_look hcall hallows hact
  | register =>
    cases hact
    refine h.of_move hcall rfl rfl (fun _ _ => rfl) (fun _ _ => rfl) (h.noKey ch) ?_ rfl ?_
    · exact (chans_register hfair.named).trans h.noChannel
    · exact hfair.go hfair.took nofun hfair.named nofun nofun nofun
  | recheck keys =>
    cases keys with
    | nil =>
      cases hact
      exact hmove rfl nofun not_mem_nil nofun nofun fun _ hkey => hkey
    | cons key keys => exact h.act_recheck hcall hallows hact
  | leave key m =>
    cases hact
    rw [hfair.left]
    refine h.of_move hcall rfl rfl (fun _ _ => rfl) (fun _ _ => rfl) (h.noKey ch) ?_ rfl ?_
    · exact (chans_unregisterBlockingZPop hfair.named).trans h.noChannel
    · exact hfair.go hfair.took nofun not_mem_nil nofun nofun fun _ hsent => hsent
  | again key => exact absurd rfl (hfair.once key)
  | woken key => exact h.act_woken hcall hallows hact
  | expired =>
    cases hact
    refine h.of_move hcall rfl rfl (fun _ _ => rfl) (fun _ _ => rfl) (h.noKey ch) ?_ rfl ?_
    · exact (chans_unregisterBlockingZPop hfair.named).trans h.noChannel
    · exact hfair.go hfair.took nofun not_mem_nil nofun nofun nofun
  | blocked | gone | ended => cases hact

theorem Inv.start (h : Inv s) (hnamed : [] ∉ cmd.keys) :
    Inv ({ s with calls := s.calls + 1 }.move s.calls cmd cmd.start) := by
  obtain ⟨-, hzero, hnew⟩ := h.fresh s.calls le_rfl
  have hstart : Fair (s.took s.calls) (s.buffer s.calls) (s.Sent s.calls) cmd cmd.start := by
    rw [hzero]
    have hnone : ∀ key, s.Sent s.calls key → cmd.start.Accepts (s.buffer s.calls) key :=
      fun key hsent => absurd hsent (hnew key)
    cases cmd with
    | write | zRangeStore => exact ⟨hnamed, nofun, not_mem_nil, rfl, nofun, nofun, hnone⟩
    | zPop max key count =>
      exact ⟨hnamed, fun _ _ _ => ⟨max, key, count, rfl⟩, not_mem_nil, rfl, nofun, nofun, hnone⟩
    | zMPop | bZPop | bZMPop =>
      refine ⟨hnamed, ?_, not_mem_nil, rfl, nofun, nofun, hnone⟩
      rintro _ ⟨⟩ hmem
      exact absurd hmem hnamed
  refine ⟨fun ch hch => ?_, h.noChannel, h.noKey, fun ch cmd' phase' hcall => ?_⟩
  · have hch : s.calls < ch := hch
    obtain ⟨hnone, hfresh⟩ := h.fresh ch hch.le
    have hne : ch ≠ s.calls := Nat.ne_of_gt hch
    refine ⟨?_, hfresh⟩
    show Function.update s.call s.calls _ ch = none
    rw [update_of_ne hne]
    exact hnone
  · have hcall : Function.update s.call s.calls (some (cmd, cmd.start)) ch = some (cmd', phase') := hcall
    by_cases hne : ch = s.calls
    · subst hne
      rw [update_self] at hcall
      cases hcall
      exact hstart
    · rw [update_of_ne hne] at hcall
      exact h.fair ch cmd' phase' hcall

theorem inv_step {a : Act} (h : Inv s) (ha : Condition s a) (hstep : s.step a = some s') :
    Inv s' := by
  cases a with
  | start cmd =>
    cases hstep
    exact h.start ha
  | act ch now =>
    rw [State.step] at hstep
    cases hcall : s.call ch with
    | none =>
      rw [hcall] at hstep
      cases hstep
    | some c =>
      rw [hcall] at hstep
      rw [Condition, hcall] at ha
      exact inv_act h hcall ha hstep
  | receive ch =>
    rw [State.step] at hstep
    split at hstep
    case h_1 cmd key hcall hbuffer =>
      cases hstep
      have hfair := h.fair ch cmd .blocked hcall
      refine h.of_move hcall rfl rfl (fun _ _ => rfl) (fun ch' hne => update_of_ne hne _ _) ?_
        h.noChannel rfl ⟨hfair.named, nofun, ?_, hfair.took, nofun, nofun, fun key' hsent => ?_⟩
      · show Function.update s.buffer ch none ch ≠ some []
        rw [update_self]
        exact nofun
      · exact fun hmem => h.noKey ch (mem_singleton.mp hmem ▸ hbuffer)
      · -- the key in the channel was the only one
        exact Option.some.inj (hbuffer.symm.trans (hfair.sent key' hsent))
    case h_2 => cases hstep
  | timeout ch =>
    rw [State.step] at hstep
    split at hstep
    case h_1 cmd hcall =>
      cases hstep
      have hfair := h.fair ch cmd .blocked hcall
      refine h.of_move hcall rfl rfl (fun _ _ => rfl) (fun _ _ => rfl) (h.noKey ch) h.noChannel rfl
        ⟨hfair.named, nofun, not_mem_nil, hfair.took, nofun, nofun, fun key hsent => ?_⟩
      cases ha.symm.trans (hfair.sent key hsent)
    case h_2 => cases hstep

end Steps

/-! ## Delivery -/

theorem blocking_zset_delivery {db : Db} {acts : List Act} {s : State}
    (hok : Meets State.step Condition { db } acts) (hrun : run State.step { db } acts = some s) :
    s.Delivered ∧ ¬ s.Starved := by
  have hinv := run_invariant (fun _ _ _ h ha hstep => inv_step h ha hstep) (inv_init db) hok hrun
  exact ⟨hinv.delivered, hinv.not_starved⟩

/-- `BZPOPMIN a b` waits, `ZADD b 1 m` wakes it up. -/
def wokenUp : List Act :=
  [.start (.bZPop false ["a", "b"]), .act 0 0, .act 0 0, .act 0 0, .act 0 0, .act 0 0,
    .act 0 0, .act 0 0, .start (.write (.zAdd "b" [("m", F64.one)])), .act 1 0, .act 1 0,
    .receive 0, .act 0 0]

theorem blocking_zset_delivery_woken : ∃ s, run State.step { db := ∅ } wokenUp = some s ∧
    s.took 0 = {(ascii "b", ascii "m", F64.one)} ∧ s.Delivered ∧ ¬ s.Starved := by
  obtain ⟨s, hrun, hend⟩ : ∃ s, run State.step { db := ∅ } wokenUp = some s ∧
      s.took 0 = {(ascii "b", ascii "m", F64.one)} := run_end (by decide +kernel)
  exact ⟨s, hrun, hend, blocking_zset_delivery (by decide +kernel) hrun⟩

/-- `BZMPOP 0 1 k MIN` finds nothing, `ZADD k 1 m` adds a member, and the `BZMPOP` looks again. -/
def lost : List Act := [.start (.bZMPop false ["k"] 1), .act 0 0, .act 0 0,
    .start (.write (.zAdd "k" [("m", F64.one)])), .act 1 0, .act 1 0,
    .act 0 0, .act 0 0, .act 0 0, .act 0 0]

/-- `BZPOPMIN a b` and `BZPOPMIN b` wait. The first is served on `a`; its channel stays with `b`, and
`ZADD b 1 y` wakes it up once more. -/
def swallowed : List Act :=
  [.start (.bZPop false ["a", "b"]), .act 0 0, .act 0 0, .act 0 0, .act 0 0, .act 0 0,
    .act 0 0, .act 0 0, .start (.bZPop false ["b"]), .act 1 0, .act 1 0, .act 1 0, .act 1 0,
    .act 1 0, .start (.write (.zAdd "a" [("x", F64.one)])), .act 2 0, .act 2 0,
    .receive 0, .act 0 0, .start (.write (.zAdd "b" [("y", F64.one)])), .act 3 0,
    .act 3 0]

instance (s : State) (ch : Chan) (key : Bytes) : Decidable (s.Stale ch key) :=
  inferInstanceAs (Decidable (_ ∧ _))

instance (s : State) (ch : Chan) (key : Bytes) : Decidable (s.WaitsFor ch key) :=
  inferInstanceAs (Decidable (_ ∧ _))

theorem member_lost_and_wakeup_swallowed :
    (∃ s, run State.step { db := ∅ } lost = some s ∧ ¬ s.Delivered) ∧
    ∃ s, run State.step { db := ∅ } swallowed = some s ∧ s.Starved := by
  refine ⟨?_, ?_⟩
  · obtain ⟨s, hrun, htook, hcall⟩ : ∃ s, run State.step { db := ∅ } lost = some s ∧
        s.took 0 = {(ascii "k", ascii "m", F64.one)} ∧
        (s.call 0).any (fun c => c.2.atRest && decide (c.2.returned = 0)) = true :=
      run_end (by decide +kernel)
    refine ⟨s, hrun, fun hdelivered => ?_⟩
    obtain ⟨⟨cmd, phase⟩, hcall, hphase⟩ := (Option.any_eq_true _ _).mp hcall
    obtain ⟨hrest, hzero⟩ := Bool.and_eq_true_iff.mp hphase
    have htook' := hdelivered 0 cmd phase hcall hrest
    rw [htook, of_decide_eq_true hzero] at htook'
    exact Multiset.singleton_ne_zero _ htook'
  · obtain ⟨s, hrun, hstale, hwaits, hmembers⟩ : ∃ s, run State.step { db := ∅ } swallowed = some s ∧
        s.Stale 0 "b" ∧ s.WaitsFor 1 "b" ∧
        (members "b" (visible (unix 0) s.db)).Nonempty := run_end (by decide +kernel)
    exact ⟨s, hrun, 0, 0, 1, "b", hstale, hwaits, hmembers⟩

end BoltDB.Store.BlockingZSets
