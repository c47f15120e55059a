import BoltDB.Store.Hashes

/-!
# Sorted sets

`zset_types.go`, `zadd_zrem.go`, `zcard_score.go`, `zrange.go`, `zpop.go`, `zlex.go` and
`zinter_store.go`. A member has a data record with its score and version, and an index record whose
name orders the members by score; a meta record holds their number and the version. A map of scores
is listed in the order of its members: the order does not matter to what is written.
-/

namespace BoltDB.Store.SortedSets

open Bytes KeyValue List

/-! ## Encodings -/

/-- The sign bit is flipped for numbers from 0 on, all bits for the others. -/
def encodeScore (x : F64) : Bytes :=
  uint64ToBytes (if F64.zero.le x then x.bits ^^^ 0x8000000000000000 else ~~~x.bits)

def decodeScore (b : Bytes) : F64 :=
  let bits := UInt64.ofNat (ofBigEndian b)
  ⟨if bits &&& 0x8000000000000000 = 0 then ~~~bits else bits ^^^ 0x8000000000000000⟩

structure Meta where
  card : Int64
  version : UInt32
  deriving DecidableEq

def encodeVersion (v : UInt32) : Bytes := bigEndian 4 v.toNat

def encodeMeta (m : Meta) : Bytes := uint64ToBytes m.card.toUInt64 ++ encodeVersion m.version

def decodeMeta (b : Bytes) : Option Meta :=
  if b.length = 12 then
    some ⟨(UInt64.ofNat (ofBigEndian (b.take 8))).toInt64, UInt32.ofNat (ofBigEndian (b.drop 8))⟩
  else none

def encodeDataValue (score : F64) (version : UInt32) : Bytes :=
  encodeScore score ++ encodeVersion version

/-- Values with eight bytes have no version, shorter ones no score. -/
def decodeDataValue (b : Bytes) : F64 × UInt32 :=
  if 12 ≤ b.length then
    (decodeScore (b.take 8), UInt32.ofNat (ofBigEndian ((b.drop 8).take 4)))
  else if 8 ≤ b.length then (decodeScore (b.take 8), 0)
  else (F64.zero, 0)

def dataPrefix (key : Bytes) : Bytes := sortedSetKey key "data:"

theorem sortedSetKeyMember_eq (key member : Bytes) :
    sortedSetKeyMember key member = dataPrefix key ++ member := by
  rw [sortedSetKeyMember, sortedSetKey, dataPrefix, sortedSetKey, append_assoc]

def indexPrefix (key : Bytes) : Bytes := sortedSetKey key "index:"

def sortedSetKeyIndex (key : Bytes) (score : F64) (member : Bytes) (version : UInt32) : Bytes :=
  indexPrefix key ++ (encodeScore score ++ ":" ++ member ++ ":" ++ encodeVersion version)

/-- `parseZSetIndexKey`, for a name that has the prefix. -/
def parseZSetIndexKey (key p : Bytes) : Option (Bytes × F64) :=
  let rest := p.drop (indexPrefix key).length
  if rest.length < 14 then none
  else some ((rest.take (rest.length - 5)).drop 9, decodeScore (rest.take 8))

/-! ## Reading -/

def getMeta (key : Bytes) : View Err (Option Meta) := do
  match ← View.get (sortedSetKeyMeta key) with
  | none => return none
  | some e =>
    match decodeMeta e.value with
    | none => throw .invalidMeta
    | some m => return some m

def oldData (key member : Bytes) : View Err (Option (F64 × UInt32)) := do
  return (← View.get (sortedSetKeyMember key member)).map (decodeDataValue ·.value)

def zScore (key member : Bytes) : View Err (Option F64) := do
  checkKeyType key .sortedSet
  return (← oldData key member).map Prod.fst

def zCard (key : Bytes) : View Err Int64 := do
  checkKeyTypeInline key .sortedSet
  return ((← getMeta key).map Meta.card).getD 0

/-- `normalizeRankRange`. -/
def normalizeRankRange (total start stop : Int64) : Option (Int64 × Int64) :=
  let start := if start < 0 then total + start else start
  let stop := if stop < 0 then total + stop else stop
  let start := if start < 0 then 0 else start
  let stop := if total ≤ stop then total - 1 else stop
  if stop < start ∨ total = 0 then none else some (start, stop)

/-- The members at some ranks, in the order of the index. -/
def zRangeMembersByRank (key : Bytes) (start stop : Int64) : View Err (List (Bytes × F64)) := do
  match ← getMeta key with
  | none => return []
  | some m =>
    match normalizeRankRange m.card start stop with
    | none => return []
    | some (start, stop) => do
      let es ← View.scan (indexPrefix key)
      return ((es.take (stop.toInt + 1).toNat).drop start.toInt.toNat).filterMap
        (parseZSetIndexKey key ·.1)

def zRevRangeMembersByRank (key : Bytes) (start stop : Int64) : View Err (List (Bytes × F64)) := do
  match ← getMeta key with
  | none => return []
  | some m =>
    match normalizeRankRange m.card start stop with
    | none => return []
    | some (start, stop) =>
      return (← zRangeMembersByRank key (m.card - 1 - stop) (m.card - 1 - start)).reverse

def zRange (key : Bytes) (start stop : Int64) : View Err (List (Bytes × F64)) := do
  checkKeyType key .sortedSet
  zRangeMembersByRank key start stop

/-- A range of scores, with or without its ends. -/
structure ScoreRange where
  min : F64
  max : F64
  minExclusive : Bool
  maxExclusive : Bool

/-- The loop of `zRangeByScoreInTxn`, which ends at the first score above the range. -/
def scoreLoop (r : ScoreRange) : List (Option (Bytes × F64)) → List (Bytes × F64)
  | [] => []
  | none :: es => scoreLoop r es
  | some (member, score) :: es =>
    if if r.maxExclusive then r.max.le score else r.max.lt score then []
    else if r.minExclusive && score.le r.min then scoreLoop r es
    else (member, score) :: scoreLoop r es

def zRangeMembersByScore (key : Bytes) (r : ScoreRange) : View Err (List (Bytes × F64)) := do
  let es ← View.scan (indexPrefix key)
  let from_ := es.filter fun e => compare e.1 (indexPrefix key ++ encodeScore r.min) ≠ .lt
  return scoreLoop r (from_.map (parseZSetIndexKey key ·.1))

/-! ## Adding -/

/-- A member to be written, with what its data record holds. -/
structure ZOp where
  member : Bytes
  score : F64
  old : Option (F64 × UInt32)

/-- `version` is the version of the sorted set, `mark` what its index records hold. -/
def writeZOp (key : Bytes) (version : UInt32) (mark : Bytes) (op : ZOp) : Txn Err Unit := do
  (match op.old with
    | some (s, v) => Txn.delete (sortedSetKeyIndex key s op.member v)
    | none => pure ())
  Txn.set (sortedSetKeyMember key op.member) (encodeDataValue op.score version)
  Txn.set (sortedSetKeyIndex key op.score op.member version) mark

/-- The part common to the two forms of `ZADD`: `plan` picks a new score, or leaves the member
out. -/
def zAddPlanned (key : Bytes) (mark : Bytes) (plan : F64 → Option (F64 × UInt32) → Option F64)
    (members : List (Bytes × F64)) : Txn Err (List ZOp) := do
  checkKeyTypeInline key .sortedSet
  Txn.set (typeOfKeyGet key) KeyType.sortedSet.name
  let m := (← getMeta key).getD ⟨0, 0⟩
  let ops ← (members.foldlM (fun acc (member, score) => do
    let old ← oldData key member
    return match plan score old with
      | some new => acc ++ [⟨member, new, old⟩]
      | none => acc) [] : View Err (List ZOp))
  let added := ops.countP (·.old.isNone)
  Txn.set (sortedSetKeyMeta key) (encodeMeta ⟨m.card + Int64.ofNat added, m.version + 1⟩)
  ops.forM (writeZOp key (m.version + 1) mark)
  return ops

/-- `zAddMembersInTxn`. -/
def zAddMembers (key : Bytes) (members : List (Bytes × F64)) : Txn Err Bool := do
  if members.isEmpty then return false
  else do
    let ops ← zAddPlanned key [] (fun score _ => some score) members
    return ops.any (·.old.isNone)

structure ZAddOptions where
  nx : Bool
  xx : Bool
  gt : Bool
  lt : Bool
  ch : Bool
  incr : Bool
  deriving DecidableEq

/-- The score that `ZADD` with options gives a member. -/
def planWithOptions (o : ZAddOptions) (score : F64) : Option (F64 × UInt32) → Option F64
  | none => if o.xx then none else some score
  | some (old, _) =>
    if o.nx || o.gt && score.le old || o.lt && old.le score then none
    else if o.incr then some (old.add score) else some score

/-- `zAddMembersInTxnOpts`. -/
def zAddMembersOpts (key : Bytes) (o : ZAddOptions) (members : List (Bytes × F64)) :
    Txn Err Nat := do
  if members.isEmpty then return 0
  else do
    let ops ← zAddPlanned key [1] (planWithOptions o) members
    return if o.ch then ops.length else ops.countP (·.old.isNone)

/-- `ZINCRBY`, which does not look at the type of the key. -/
def zIncrByTxn (key member : Bytes) (increment : F64) : Txn Err F64 := do
  Txn.set (typeOfKeyGet key) KeyType.sortedSet.name
  let old ← oldData key member
  let new := ((old.map Prod.fst).getD F64.zero).add increment
  let m := (← getMeta key).getD ⟨0, 0⟩
  writeZOp key (m.version + 1) [] ⟨member, new, old⟩
  Txn.set (sortedSetKeyMeta key)
    (encodeMeta ⟨if old.isSome then m.card else m.card + 1, m.version + 1⟩)
  return new

/-! ## Removing -/

/-- The meta record after a member is gone; with the last one it goes, and the type too. -/
def lowerCard (key : Bytes) (m : Meta) : Txn Err Unit :=
  let card := m.card - 1
  if card ≤ 0 then do
    Txn.delete (sortedSetKeyMeta key)
    Txn.delete (typeOfKeyGet key)
  else Txn.set (sortedSetKeyMeta key) (encodeMeta ⟨card, m.version⟩)

/-- `zRemMemberInTxn`: whether there was such a member. -/
def zRemMember (key member : Bytes) : Txn Err Bool := do
  checkKeyTypeInline key .sortedSet
  match ← oldData key member with
  | none => return false
  | some (score, version) => do
    let m := (← getMeta key).getD ⟨0, 0⟩
    Txn.delete (sortedSetKeyMember key member)
    Txn.delete (sortedSetKeyIndex key score member version)
    lowerCard key m
    return true

/-- The members that were there. -/
def zRemMembers (key : Bytes) (members : List (Bytes × F64)) : Txn Err (List (Bytes × F64)) :=
  members.foldlM (fun acc m => do
    return if ← zRemMember key m.1 then acc ++ [m] else acc) []

def zRemRangeByRankTxn (key : Bytes) (start stop : Int64) : Txn Err Nat := do
  let members ← zRangeMembersByRank key start stop
  return (← zRemMembers key members).length

def zRemRangeByScoreTxn (key : Bytes) (r : ScoreRange) : Txn Err Nat := do
  let members ← zRangeMembersByScore key r
  return (← zRemMembers key members).length

def zPopTxn (max : Bool) (key : Bytes) (count : Int64) : Txn Err (List (Bytes × F64)) := do
  checkKeyType key .sortedSet
  let members ← (if max then zRevRangeMembersByRank else zRangeMembersByRank) key 0 (count - 1)
  zRemMembers key members

/-- The first byte if it is one of `(` and `[`, and the rest. -/
def splitBound (b : Bytes) : Option UInt8 × Bytes :=
  match b with
  | x :: s => if x = 40 ∨ x = 91 then (some x, s) else (none, b)
  | [] => (none, [])

/-- `compareLex`, from a lower bound to a member: both are looked at for a bracket. -/
def compareLex (a b : Bytes) (inclusive : Bool) : Bool :=
  if a = "-" then true
  else if a = "+" then false
  else if b = "-" then false
  else if b = "+" then true
  else
    let (ka, va) := splitBound a
    let (kb, vb) := splitBound b
    let useIncl : Bool := match ka with
      | some x => x = 91
      | none => match kb with
        | some x => x = 91
        | none => inclusive
    if useIncl then compare va vb ≠ .gt else compare va vb = .lt

def memberInLexRange (member min max : Bytes) : Bool := compareLex min member true &&
    (max = "+" ||
      match splitBound max with
      | (some 40, m) => compare member m = .lt
      | (some _, m) => compare member m ≠ .gt
      | (none, _) => compare member max ≠ .gt)

/-- `ZREMRANGEBYLEX` looks at the index records, whatever the meta record says. -/
def zRemRangeByLexTxn (key min max : Bytes) : Txn Err Nat := do
  let es ← Txn.scan (indexPrefix key)
  let members := es.filterMap (parseZSetIndexKey key ·.1)
  return (← zRemMembers key (members.filter fun m => memberInLexRange m.1 min max)).length

/-! ## Several sorted sets -/

abbrev Scores := Std.ExtTreeMap Bytes F64 compare

def readMembers (key : Bytes) : View Err (List (Bytes × F64)) := do
  checkKeyType key .sortedSet
  zRangeMembersByRank key 0 (-1)

/-- A weight that is missing or 0 is 1. -/
def weightAt (weights : List F64) (i : Nat) : F64 :=
  match weights[i]? with
  | some w => if w.eq F64.zero then F64.one else w
  | none => F64.one

def applyAggregateScore (existing : Option F64) (score : F64) (aggregate : Bytes) : F64 :=
  match existing with
  | none => score
  | some x =>
    if aggregate = "MIN" then if score.lt x then score else x
    else if aggregate = "MAX" then if x.lt score then score else x
    else x.add score

def zUnionScores (keys : List Bytes) (weights : List F64) (aggregate : Bytes) : View Err Scores :=
  keys.zipIdx.foldlM (fun acc (key, i) => do
    let members ← readMembers key
    return members.foldl (fun (acc : Scores) (member, s) =>
      acc.insert member (applyAggregateScore acc[member]? (s.mul (weightAt weights i)) aggregate))
        acc) ∅

/-- The other sets are read by member; their types are not looked at. -/
def zInterScores (keys : List Bytes) (weights : List F64) (aggregate : Bytes) : View Err Scores :=
  match keys.zipIdx with
  | [] => pure ∅
  | (key, _) :: others => do
    let members ← readMembers key
    let first := members.foldl
      (fun (acc : Scores) (member, s) => acc.insert member (s.mul (weightAt weights 0))) ∅
    others.foldlM (fun acc (key, i) =>
      acc.toList.foldlM (fun (acc : Scores) (member, s) => do
        match ← oldData key member with
        | none => return acc.erase member
        | some (other, _) =>
          return acc.insert member
            (applyAggregateScore (some s) (other.mul (weightAt weights i)) aggregate)) acc) first

def zDiffMembers : List Bytes → View Err (List (Bytes × F64))
  | [] => pure []
  | key :: others => do
    let first ← readMembers key
    first.foldlM (fun acc m => do
      let found ← others.foldlM (fun b k => do return b || (← oldData k m.1).isSome) false
      return if found then acc else acc ++ [m]) []

/-- A loop from the first record of the store on, as long as the names have a prefix. -/
def deleteLeading (pre : Bytes) : Txn Err Unit := do
  let es ← Txn.scan []
  (es.takeWhile (pre.isPrefixOf ·.1)).forM fun e => Txn.delete e.1

/-- `zSetDelInTxn`: the prefixes lack the tag of the type, so that the data and index records of the
set stay. -/
def zSetDel (key : Bytes) : Txn Err Unit := do
  deleteLeading (key ++ ":data:")
  deleteLeading (key ++ ":index:")
  Txn.delete (sortedSetKeyMeta key)
  Txn.delete (typeOfKeyGet key)

def zStoreReplace (destination : Bytes) (members : List (Bytes × F64)) : Txn Err Nat := do
  zSetDel destination
  let _ ← zAddMembers destination members
  return members.length

def zUnionStoreTxn (destination : Bytes) (keys : List Bytes) (weights : List F64)
    (aggregate : Bytes) : Txn Err Nat := do
  let scores ← zUnionScores keys weights aggregate
  zStoreReplace destination scores.toList

def zInterStoreTxn (destination : Bytes) (keys : List Bytes) (weights : List F64)
    (aggregate : Bytes) : Txn Err Nat := do
  let scores ← zInterScores keys weights aggregate
  zStoreReplace destination scores.toList

def zDiffStoreTxn (destination : Bytes) (keys : List Bytes) : Txn Err Nat := do
  let members ← zDiffMembers keys
  zStoreReplace destination members

/-! ## Methods -/

/-- Without members there is no transaction. -/
def zAdd (now : Nat) (key : Bytes) (members : List (Bytes × F64)) : Run Err Unit :=
  if members.isEmpty then pure ()
  else do
    let _ ← update now (zAddMembers key members)
    return ()

def zAddWithOptions (now : Nat) (key : Bytes) (o : ZAddOptions) (members : List (Bytes × F64)) :
    Run Err Nat :=
  if members.isEmpty then pure 0 else update now (zAddMembersOpts key o members)

def zIncrBy (now : Nat) (key member : Bytes) (increment : F64) : Run Err F64 :=
  update now (zIncrByTxn key member increment)

def zRem (now : Nat) (key member : Bytes) : Run Err Bool := update now (zRemMember key member)

def zRemRangeByRank (now : Nat) (key : Bytes) (start stop : Int64) : Run Err Nat :=
  update now (zRemRangeByRankTxn key start stop)

def zRemRangeByScore (now : Nat) (key : Bytes) (r : ScoreRange) : Run Err Nat :=
  update now (zRemRangeByScoreTxn key r)

def zRemRangeByLex (now : Nat) (key min max : Bytes) : Run Err Nat :=
  update now (zRemRangeByLexTxn key min max)

/-- `ZPopMax` and `ZPopMin`. -/
def zPop (max : Bool) (now : Nat) (key : Bytes) (count : Int64) : Run Err (List (Bytes × F64)) :=
  if count ≤ 0 then pure [] else update now (zPopTxn max key count)

/-- `ZMPOP`: the first key that gives something. -/
def zMPop (now : Nat) (max : Bool) (count : Int64) :
    List Bytes → Run Err (Option (Bytes × List (Bytes × F64)))
  | [] => pure none
  | key :: keys => do
    view now (checkKeyTypeInline key .sortedSet)
    let popped ← zPop max now key count
    if popped.isEmpty then zMPop now max count keys else return some (key, popped)

def zUnionStore (now : Nat) (destination : Bytes) (keys : List Bytes) (weights : List F64)
    (aggregate : Bytes) : Run Err Nat :=
  update now (zUnionStoreTxn destination keys weights aggregate)

def zInterStore (now : Nat) (destination : Bytes) (keys : List Bytes) (weights : List F64)
    (aggregate : Bytes) : Run Err Nat :=
  update now (zInterStoreTxn destination keys weights aggregate)

def zDiffStore (now : Nat) (destination : Bytes) (keys : List Bytes) : Run Err Nat :=
  update now (zDiffStoreTxn destination keys)

/-! ## `ZRANGESTORE` -/

/-- What `ZRANGESTORE` selects the members by. -/
inductive StoreRange
  | rank (start stop : Int64)
  | score (min max : F64)
  | lex (min max : Bytes)

/-- `l[start:stop]`; out of bounds it panics, which ends the connection. -/
def slice {α : Type} (l : List α) (start stop : Int64) : View Err (List α) :=
  if 0 ≤ start ∧ start ≤ stop ∧ stop.toInt ≤ l.length then
    pure ((l.take stop.toInt.toNat).drop start.toInt.toNat)
  else throw (.other "slice bounds out of range")

/-- `applyZSetScoreOffsetCount`. -/
def applyZSetScoreOffsetCount {α : Type} (l : List α) (offset count : Int64) : List α :=
  if (l.length : Int) ≤ offset.toInt then []
  else
    let l := if 0 < offset then l.drop offset.toInt.toNat else l
    if 0 < count then l.take count.toInt.toNat else l

/-- The limit of `ZRangeByLex`. -/
def applyLexLimit {α : Type} (l : List α) (offset count : Int64) : View Err (List α) :=
  let offset := if offset < 0 then 0 else offset
  let stop := offset + count
  if offset.toInt < l.length then
    if count ≤ 0 ∨ (l.length : Int) < stop.toInt then pure (l.drop offset.toInt.toNat)
    else slice l offset stop
  else pure []

/-- The limit of a range of ranks; an offset beyond the end has no effect. -/
def applyRankLimit {α : Type} (l : List α) (offset count : Int64) : View Err (List α) :=
  if 0 ≤ count ∧ offset.toInt < l.length then
    if count = 0 ∨ (l.length : Int) < (offset + count).toInt then slice l offset (Int64.ofNat l.length)
    else slice l offset (offset + count)
  else pure l

/-- The members that are to be stored: by name all scores are 0. -/
def zRangeStoreMembers (source : Bytes) (rev : Bool) (offset count : Int64) :
    StoreRange → View Err (List (Bytes × F64))
  | .rank start stop => do
    let members ← if rev then zRange source stop start else zRange source start stop
    applyRankLimit members offset count
  | .score min max => do
    let members ← zRangeMembersByScore source ⟨min, max, false, false⟩
    let members := applyZSetScoreOffsetCount members offset count
    return if rev then members.reverse else members
  | .lex min max => do
    let members ← readMembers source
    let names := (members.filter fun m => memberInLexRange m.1 min max).map fun m => (m.1, F64.zero)
    let names ← applyLexLimit names offset count
    return if rev then names.reverse else names

/-- The destination is deleted after the source was read. -/
def zRangeStore (now : Nat) (destination source : Bytes) (range : StoreRange) (rev : Bool)
    (offset count : Int64) : Run Err Nat := do
  let members ← view now (zRangeStoreMembers source rev offset count range)
  let _ ← del now destination
  zAdd now destination members
  return members.length

/-! ## Footprints -/

section Footprints

variable {key : Bytes} {p : Bytes} {e : Option Entry}

theorem isRecord_of_indexPrefix (h : indexPrefix key <+: p) : IsRecord .sortedSet key p :=
  isRecord_of_isPrefix rfl ((prefix_append _ _).trans h)

/-- The names of a sorted set's records. -/
def IsZSetRecord (key p : Bytes) : Prop :=
  p = sortedSetKeyMeta key ∨ dataPrefix key <+: p ∨ indexPrefix key <+: p

/-- What the methods that add members write: the type, and records that do not expire. -/
def ZTouches (key p : Bytes) (e : Option Entry) : Prop :=
  p = typeOfKeyGet key ∧ e = some ⟨KeyType.sortedSet.name, 0⟩ ∨
    IsZSetRecord key p ∧ ∀ x, e = some x → x.expiresAt = 0

/-- As `ZTouches`, for the methods that also delete the type. -/
def ZMayRemove (key p : Bytes) (e : Option Entry) : Prop :=
  p = typeOfKeyGet key ∧ (e = some ⟨KeyType.sortedSet.name, 0⟩ ∨ e = none) ∨
    IsZSetRecord key p ∧ ∀ x, e = some x → x.expiresAt = 0

theorem IsZSetRecord.isRecord (h : IsZSetRecord key p) : IsRecord .sortedSet key p := by
  rcases h with rfl | h | h
  · exact isRecord_sortedSetKeyMeta key
  · exact isRecord_of_isPrefix rfl ((prefix_append _ _).trans h)
  · exact isRecord_of_indexPrefix h

theorem ZTouches.touches (h : ZTouches key p e) :
    Touches .sortedSet key p e := h.imp id fun h => h.1.isRecord

theorem ZMayRemove.mayRemove (h : ZMayRemove key p e) :
    MayRemove .sortedSet key p e := h.imp id fun h => h.1.isRecord

theorem ZTouches.zMayRemove (h : ZTouches key p e) :
    ZMayRemove key p e := h.imp (fun h => ⟨h.1, .inl h.2⟩) id

theorem zTouches_type : ZTouches key (typeOfKeyGet key) (some ⟨KeyType.sortedSet.name, 0⟩) :=
  .inl ⟨rfl, rfl⟩

section Records

variable {p : Bytes} (h : IsZSetRecord key p)

include h

theorem zTouches_set (v : Bytes) : ZTouches key p (some ⟨v, 0⟩) :=
  .inr ⟨h, fun _ hx => by cases hx; rfl⟩

theorem zTouches_delete : ZTouches key p none := .inr ⟨h, fun _ => nofun⟩

end Records

theorem isZSetRecord_meta : IsZSetRecord key (sortedSetKeyMeta key) := .inl rfl

theorem isZSetRecord_member (member : Bytes) : IsZSetRecord key (sortedSetKeyMember key member) := by
  rw [sortedSetKeyMember_eq]
  exact .inr (.inl (prefix_append _ _))

theorem isZSetRecord_index (score : F64) (member : Bytes) (version : UInt32) :
    IsZSetRecord key (sortedSetKeyIndex key score member version) :=
  .inr (.inr (prefix_append _ _))

theorem writes_writeZOp (version : UInt32) (mark : Bytes) (op : ZOp) :
    Writes (ZTouches key) (writeZOp key version mark op) := by
  refine writes_bind ?_ fun _ =>
    writes_bind (writes_set (zTouches_set (isZSetRecord_member _) _)) fun _ =>
      writes_set (zTouches_set (isZSetRecord_index _ _ _) _)
  split
  · exact writes_delete (zTouches_delete (isZSetRecord_index _ _ _))
  · exact writes_pure

theorem writes_zAddPlanned (mark : Bytes) (plan : F64 → Option (F64 × UInt32) → Option F64)
    (members : List (Bytes × F64)) :
    Writes (ZTouches key) (zAddPlanned key mark plan members) := by
  refine writes_read fun _ => ?_
  refine writes_bind (writes_set zTouches_type) fun _ => ?_
  refine writes_read fun m => writes_read fun ops => ?_
  refine writes_bind (writes_set (zTouches_set isZSetRecord_meta _)) fun _ => ?_
  exact writes_map (writes_forM fun op _ => writes_writeZOp _ _ op) _

theorem writes_zAddMembers (members : List (Bytes × F64)) :
    Writes (ZTouches key) (zAddMembers key members) :=
  writes_ite writes_pure (writes_map (writes_zAddPlanned _ _ _) _)

theorem writes_zAddMembersOpts (o : ZAddOptions) (members : List (Bytes × F64)) :
    Writes (ZTouches key) (zAddMembersOpts key o members) :=
  writes_ite writes_pure (writes_map (writes_zAddPlanned _ _ _) _)

theorem writes_zIncrByTxn (member : Bytes) (increment : F64) :
    Writes (ZTouches key) (zIncrByTxn key member increment) := by
  refine writes_bind (writes_set zTouches_type) fun _ => ?_
  refine writes_read fun old => writes_read fun m => ?_
  refine writes_bind (writes_writeZOp _ _ _) fun _ => ?_
  exact writes_map (writes_set (zTouches_set isZSetRecord_meta _)) _

theorem writes_lowerCard (m : Meta) : Writes (ZMayRemove key) (lowerCard key m) := by
  refine writes_ite ?_ (writes_set (zTouches_set isZSetRecord_meta _).zMayRemove)
  refine writes_bind (writes_delete (zTouches_delete isZSetRecord_meta).zMayRemove) fun _ => ?_
  exact writes_delete (.inl ⟨rfl, .inr rfl⟩)

theorem writes_zRemMember (member : Bytes) : Writes (ZMayRemove key) (zRemMember key member) := by
  refine writes_read fun _ => writes_read fun old => ?_
  split
  · exact writes_pure
  · refine writes_read fun m => ?_
    refine writes_bind
      (writes_delete (zTouches_delete (isZSetRecord_member member)).zMayRemove) fun _ => ?_
    refine writes_bind
      (writes_delete (zTouches_delete (isZSetRecord_index _ _ _)).zMayRemove) fun _ => ?_
    exact writes_map (writes_lowerCard _) _

theorem writes_zRemMembers (members : List (Bytes × F64)) :
    Writes (ZMayRemove key) (zRemMembers key members) :=
  writes_foldlM (fun _ _ => writes_map (writes_zRemMember _) _) _ _

theorem writes_zRemRangeByRankTxn (start stop : Int64) :
    Writes (ZMayRemove key) (zRemRangeByRankTxn key start stop) :=
  writes_read fun _ => writes_map (writes_zRemMembers _) _

theorem writes_zRemRangeByScoreTxn (r : ScoreRange) :
    Writes (ZMayRemove key) (zRemRangeByScoreTxn key r) :=
  writes_read fun _ => writes_map (writes_zRemMembers _) _

theorem writes_zRemRangeByLexTxn (min max : Bytes) :
    Writes (ZMayRemove key) (zRemRangeByLexTxn key min max) :=
  writes_read fun _ => writes_map (writes_zRemMembers _) _

theorem writes_zPopTxn (max : Bool) (count : Int64) :
    Writes (ZMayRemove key) (zPopTxn max key count) :=
  writes_read fun _ => writes_read fun _ => writes_zRemMembers _

theorem reads_getMeta (key : Bytes) : Reads (IsRecord .sortedSet key) (getMeta key) := by
  refine reads_bind (reads_get (isRecord_sortedSetKeyMeta key)) fun e => ?_
  split
  · exact reads_pure
  · split
    · exact reads_throw _
    · exact reads_pure

theorem reads_oldData (key member : Bytes) : Reads (IsRecord .sortedSet key) (oldData key member) :=
  reads_bind (reads_get (isRecord_sortedSetKeyMember key member)) fun _ => reads_pure

theorem views_zScore (key member : Bytes) : Views .sortedSet key (zScore key member) :=
  views_checkKeyType (reads_bind (reads_oldData key member) fun _ => reads_pure)

theorem views_zCard (key : Bytes) : Views .sortedSet key (zCard key) :=
  views_checkKeyTypeInline (reads_bind (reads_getMeta key) fun _ => reads_pure)

theorem reads_zRangeMembersByRank (key : Bytes) (start stop : Int64) :
    Reads (IsRecord .sortedSet key) (zRangeMembersByRank key start stop) := by
  refine reads_bind (reads_getMeta key) fun m => ?_
  split
  · exact reads_pure
  · split
    · exact reads_pure
    · exact reads_bind (reads_scan fun _ hp => isRecord_of_indexPrefix hp)
        fun _ => reads_pure

theorem views_zRange (key : Bytes) (start stop : Int64) :
    Views .sortedSet key (zRange key start stop) :=
  views_checkKeyType (reads_zRangeMembersByRank key start stop)

end Footprints

/-! ## The methods that write one key -/

inductive Op
  | zAdd (members : List (Bytes × F64))
  | zAddWithOptions (o : ZAddOptions) (members : List (Bytes × F64))
  | zIncrBy (member : Bytes) (increment : F64)
  | zRem (member : Bytes)
  | zRemRangeByRank (start stop : Int64)
  | zRemRangeByScore (r : ScoreRange)
  | zRemRangeByLex (min max : Bytes)
  | zPop (max : Bool) (count : Int64)

def Op.run (now : Nat) (key : Bytes) : Op → Run Err Unit
  | zAdd members => SortedSets.zAdd now key members
  | zAddWithOptions o members => void (SortedSets.zAddWithOptions now key o members)
  | zIncrBy member increment => void (SortedSets.zIncrBy now key member increment)
  | zRem member => void (SortedSets.zRem now key member)
  | zRemRangeByRank start stop => void (SortedSets.zRemRangeByRank now key start stop)
  | zRemRangeByScore r => void (SortedSets.zRemRangeByScore now key r)
  | zRemRangeByLex min max => void (SortedSets.zRemRangeByLex now key min max)
  | zPop max count => void (SortedSets.zPop max now key count)

theorem commits_zTouches {α : Type} {now : Nat} {key : Bytes} {m : Txn Err α}
    (h : Writes (ZTouches key) m) : Commits (unix now) (MayRemove .sortedSet key) (update now m) :=
  commits_mayRemove (h.mono fun _ _ hw => hw.zMayRemove.mayRemove)

theorem commits_zMayRemove {α : Type} {now : Nat} {key : Bytes} {m : Txn Err α}
    (h : Writes (ZMayRemove key) m) :
    Commits (unix now) (MayRemove .sortedSet key) (update now m) :=
  commits_mayRemove (h.mono fun _ _ hw => hw.mayRemove)

theorem Op.commits (now : Nat) (key : Bytes) (op : Op) :
    Commits (unix now) (MayRemove .sortedSet key) (op.run now key) := by
  cases op with
  | zAdd members =>
    exact commits_ite commits_pure (commits_void (commits_zTouches (writes_zAddMembers members)))
  | zAddWithOptions o members =>
    exact commits_void
      (commits_ite commits_pure (commits_zTouches (writes_zAddMembersOpts o members)))
  | zIncrBy member increment =>
    exact commits_void (commits_zTouches (writes_zIncrByTxn member increment))
  | zRem member => exact commits_void (commits_zMayRemove (writes_zRemMember member))
  | zRemRangeByRank start stop =>
    exact commits_void (commits_zMayRemove (writes_zRemRangeByRankTxn start stop))
  | zRemRangeByScore r => exact commits_void (commits_zMayRemove (writes_zRemRangeByScoreTxn r))
  | zRemRangeByLex min max =>
    exact commits_void (commits_zMayRemove (writes_zRemRangeByLexTxn min max))
  | zPop max count =>
    exact commits_void
      (commits_ite commits_pure (commits_zMayRemove (writes_zPopTxn max count)))

end BoltDB.Store.SortedSets
