import BoltDB.Store.Hashes

/-!
# Sets

`set.go`. Members are empty records `SET:key:member:m`, and their number is a record. Random choices
are arguments: `pick` for an index, a list of picks for a shuffle.
-/

namespace BoltDB.Store.Sets

open Bytes KeyValue List

/-! ## Reading -/

/-- What the members' records start with. -/
def memberPrefix (key : Bytes) : Bytes := setKey key "member:"

def memberOf (key p : Bytes) : Bytes := p.drop (memberPrefix key).length

def getAllMembers (key : Bytes) : View Err (List Bytes) := do
  return (← View.scan (memberPrefix key)).map (memberOf key ·.1)

def isMember (key member : Bytes) : View Err Bool := do
  return (← View.get (setMemberKey key member)).isSome

def sCard (key : Bytes) : View Err UInt64 := do
  checkKeyTypeInline key .set
  getCount (setCountKey key)

def sIsMember (key member : Bytes) : View Err Bool := do
  checkKeyTypeInline key .set
  isMember key member

def sMembers (key : Bytes) : View Err (List Bytes) := do
  checkKeyTypeInline key .set
  getAllMembers key

/-! ## Adding and removing -/

/-- One member of `SADD`, with the number of added members and the count so far. -/
def sAddMember (key : Bytes) (st : Nat × UInt64) (member : Bytes) : Txn Err (Nat × UInt64) := do
  if (← Txn.get (setMemberKey key member)).isSome then return st
  else do
    Txn.set (setMemberKey key member) []
    return (st.1 + 1, st.2 + 1)

def sAddTxn (key : Bytes) (members : List Bytes) : Txn Err Nat := do
  checkKeyTypeInline key .set
  Txn.set (typeOfKeyGet key) KeyType.set.name
  let count ← getCount (setCountKey key)
  let st ← members.foldlM (sAddMember key) (0, count)
  if 0 < st.1 then do
    setCount (setCountKey key) st.2
    return st.1
  else return 0

/-- One member of `SREM`; the count wraps around below 0. -/
def sRemMember (key : Bytes) (st : Nat × UInt64) (member : Bytes) : Txn Err (Nat × UInt64) := do
  if (← Txn.get (setMemberKey key member)).isSome then do
    Txn.delete (setMemberKey key member)
    return (st.1 + 1, st.2 - 1)
  else return st

def sRemTxn (key : Bytes) (members : List Bytes) : Txn Err Nat := do
  checkKeyTypeInline key .set
  let count ← getCount (setCountKey key)
  let st ← members.foldlM (sRemMember key) (0, count)
  if 0 < st.1 then do
    setCount (setCountKey key) st.2
    return st.1
  else return 0

/-! ## Random members -/

def randomIntn (n : Int) (pick : Nat) : Nat := if n ≤ 0 then 0 else pick % n.toNat

/-- The record at an index. From the middle on it is counted from the end, starting at the last name
up to the member `0xFF`. -/
def popTarget (key : Bytes) (count : UInt64) (targetIndex : Nat) (es : List (Bytes × Entry)) :
    Option Bytes :=
  if targetIndex < count.toNat / 2 then (es.map Prod.fst)[targetIndex]?
  else
    let upTo := (es.map Prod.fst).filter fun p => compare p (memberPrefix key ++ [0xFF]) ≠ .gt
    let fromEnd := count.toInt64.toInt - 1 - targetIndex
    if fromEnd < 0 then none else upTo.reverse[fromEnd.toNat]?

/-- `SPOP` of one member, which does not look at the type of the key. -/
def sPopTxn (key : Bytes) (pick : Nat) : Txn Err (Option Bytes) := do
  match ← Txn.get (setCountKey key) with
  | none => return none
  | some e =>
    let count := bytesToUint64 e.value
    if count = 0 then return none
    else do
      let es ← Txn.scan (memberPrefix key)
      match popTarget key count (randomIntn count.toInt64.toInt pick) es with
      | none => return none
      | some p => do
        Txn.delete p
        setCount (setCountKey key) (count - 1)
        return some (memberOf key p)

def swap (l : List Bytes) (i j : Nat) : List Bytes := (l.set i (l.getD j [])).set j (l.getD i [])

/-- `randomShuffle`: Fisher-Yates from the end. -/
def shuffle (picks : Nat → Nat) : Nat → List Bytes → List Bytes
  | 0, l => l
  | i + 1, l => shuffle picks i (swap l (i + 1) (randomIntn (i + 2) (picks (i + 1))))

/-- `SPOP` with a count. -/
def sPopNTxn (key : Bytes) (count : Int64) (picks : Nat → Nat) : Txn Err (List Bytes) := do
  let all ← getAllMembers key
  let popped := (shuffle picks (all.length - 1) all).take count.toInt.toNat
  popped.forM fun member => Txn.delete (setMemberKey key member)
  if popped.isEmpty then return []
  else
    match ← Txn.get (setCountKey key) with
    | none => return popped
    | some e =>
      let current := bytesToUint64 e.value
      if UInt64.ofNat popped.length ≤ current then do
        setCount (setCountKey key) (current - UInt64.ofNat popped.length)
        return popped
      else return popped

/-! ## Several sets -/

/-- The count record of a key that lost a member, if there is one above 0. -/
def decrCount (key : Bytes) : Txn Err Unit := do
  match ← Txn.get (setCountKey key) with
  | none => pure ()
  | some e =>
    let count := bytesToUint64 e.value
    if 0 < count then setCount (setCountKey key) (count - 1) else pure ()

def sMoveTxn (source destination member : Bytes) : Txn Err Bool := do
  if (← Txn.get (setMemberKey source member)).isNone then return false
  else do
    let inDest ← Txn.get (setMemberKey destination member)
    Txn.delete (setMemberKey source member)
    decrCount source
    if inDest.isSome then return true
    else do
      Txn.set (typeOfKeyGet destination) KeyType.set.name
      Txn.set (setMemberKey destination member) []
      let count ← getCount (setCountKey destination)
      setCount (setCountKey destination) (count + 1)
      return true

/-- The members of the first set that are in all the others. -/
def sInter : List Bytes → View Err (List Bytes)
  | [] => pure []
  | key :: keys => do
    (← getAllMembers key).foldlM (fun acc member => do
      let inAll ← keys.foldlM (fun b k => do return b && (← isMember k member)) true
      return if inAll then acc ++ [member] else acc) []

/-- The members of all the sets, each at its first place. -/
def sUnion (keys : List Bytes) : View Err (List Bytes) := keys.foldlM (fun acc key => do
    return (← getAllMembers key).foldl (fun acc m => if m ∈ acc then acc else acc ++ [m]) acc) []

/-- The members of the first set that are in none of the others. -/
def sDiff : List Bytes → View Err (List Bytes)
  | [] => pure []
  | key :: keys => do
    let first ← getAllMembers key
    let others ← keys.foldlM (fun acc k => do return acc ++ (← getAllMembers k)) []
    return first.filter (· ∉ others)

/-- The type and the members of a result that is not empty. -/
def putMembers (destination : Bytes) (result : List Bytes) : Txn Err Unit :=
  if result.isEmpty then pure ()
  else do
    Txn.set (typeOfKeyGet destination) KeyType.set.name
    result.forM fun member => Txn.set (setMemberKey destination member) []

/-- The common part of `SINTERSTORE`, `SUNIONSTORE` and `SDIFFSTORE`: other records of the
destination stay, and so does its type when the result is empty. -/
def storeMembers (destination : Bytes) (result : List Bytes) : Txn Err Nat := do
  let existing ← getAllMembers destination
  existing.forM fun member => Txn.delete (setMemberKey destination member)
  putMembers destination result
  setCount (setCountKey destination) (UInt64.ofNat result.length)
  return result.length

inductive SetOp
  | inter | union | diff
  deriving DecidableEq

def SetOp.run : SetOp → List Bytes → View Err (List Bytes)
  | .inter => sInter
  | .union => sUnion
  | .diff => sDiff

def sStoreTxn (op : SetOp) (destination : Bytes) (keys : List Bytes) : Txn Err Nat := do
  let result ← op.run keys
  storeMembers destination result

/-! ## Methods -/

def sAdd (now : Nat) (key : Bytes) (members : List Bytes) : Run Err Nat :=
  update now (sAddTxn key members)

def sRem (now : Nat) (key : Bytes) (members : List Bytes) : Run Err Nat :=
  update now (sRemTxn key members)

def sPop (now : Nat) (key : Bytes) (pick : Nat) : Run Err (Option Bytes) :=
  update now (sPopTxn key pick)

def sPopN (now : Nat) (key : Bytes) (count : Int64) (picks : Nat → Nat) : Run Err (List Bytes) :=
  update now (sPopNTxn key count picks)

def sMove (now : Nat) (source destination member : Bytes) : Run Err Bool :=
  update now (sMoveTxn source destination member)

def sInterStore (now : Nat) (destination : Bytes) (keys : List Bytes) : Run Err Nat :=
  update now (sStoreTxn .inter destination keys)

def sUnionStore (now : Nat) (destination : Bytes) (keys : List Bytes) : Run Err Nat :=
  update now (sStoreTxn .union destination keys)

def sDiffStore (now : Nat) (destination : Bytes) (keys : List Bytes) : Run Err Nat :=
  update now (sStoreTxn .diff destination keys)

/-! ## Footprints -/

section Footprints

variable {key : Bytes}

theorem touches_setKey (part : Bytes) (e : Option Entry) : Touches .set key (setKey key part) e :=
  touches_record (isRecord_setKey key part)

theorem touches_setMemberKey (member : Bytes) (e : Option Entry) :
    Touches .set key (setMemberKey key member) e := touches_setKey _ e

theorem writes_setCount_set (n : UInt64) :
    Writes (Touches .set key) (setCount (setCountKey key) n) := writes_set (touches_setKey _ _)

theorem writes_sAddMember (st : Nat × UInt64) (member : Bytes) :
    Writes (Touches .set key) (sAddMember key st member) := by
  refine writes_read fun old => writes_ite writes_pure ?_
  exact writes_map (writes_set (touches_setMemberKey member _)) _

theorem writes_sAddTxn (members : List Bytes) :
    Writes (Touches .set key) (sAddTxn key members) := by
  refine writes_read fun _ => ?_
  refine writes_bind (writes_set touches_typeOfKeyGet) fun _ => ?_
  refine writes_read fun count => ?_
  refine writes_bind (writes_foldlM writes_sAddMember _ _) fun st => ?_
  refine writes_ite ?_ writes_pure
  exact writes_map (writes_setCount_set _) _

theorem writes_sRemMember (st : Nat × UInt64) (member : Bytes) :
    Writes (Touches .set key) (sRemMember key st member) := by
  refine writes_read fun old => writes_ite ?_ writes_pure
  exact writes_map (writes_delete (touches_setMemberKey member _)) _

theorem writes_sRemTxn (members : List Bytes) :
    Writes (Touches .set key) (sRemTxn key members) := by
  refine writes_read fun _ => writes_read fun count => ?_
  refine writes_bind (writes_foldlM writes_sRemMember _ _) fun st => ?_
  refine writes_ite ?_ writes_pure
  exact writes_map (writes_setCount_set _) _

theorem mem_of_popTarget {count : UInt64} {i : Nat} {es : List (Bytes × Entry)} {p : Bytes}
    (h : popTarget key count i es = some p) : ∃ e ∈ es, e.1 = p := by
  have hmem : p ∈ es.map Prod.fst := by
    unfold popTarget at h
    split at h
    · exact mem_of_getElem? h
    · dsimp only at h
      split at h
      · cases h
      · have := mem_reverse.mp (mem_of_getElem? h)
        exact (mem_filter.mp this).1
  exact mem_map.mp hmem

theorem isRecord_of_memberPrefix {p : Bytes} (h : memberPrefix key <+: p) : IsRecord .set key p :=
  isRecord_of_isPrefix rfl ((prefix_append _ _).trans h)

theorem writes_sPopTxn (pick : Nat) : Writes (Touches .set key) (sPopTxn key pick) := by
  refine writes_get_bind writes_pure fun e => ?_
  refine writes_ite writes_pure (writes_scan_bind fun es hes => ?_)
  split
  · exact writes_pure
  · next p hp =>
    obtain ⟨e, he, rfl⟩ := mem_of_popTarget hp
    refine writes_bind (writes_delete (touches_record ?_)) fun _ => ?_
    · exact isRecord_of_memberPrefix (hes e he)
    · exact writes_map (writes_setCount_set _) _

theorem writes_deleteMembers (members : List Bytes) : Writes (Touches .set key)
      (members.forM fun member => (Txn.delete (setMemberKey key member) : Txn Err Unit)) :=
  writes_forM fun member _ => writes_delete (touches_setMemberKey member _)

theorem writes_sPopNTxn (count : Int64) (picks : Nat → Nat) :
    Writes (Touches .set key) (sPopNTxn key count picks) := by
  refine writes_read fun all => writes_bind (writes_deleteMembers _) fun _ => ?_
  refine writes_ite writes_pure (writes_get_bind writes_pure fun e => ?_)
  refine writes_ite ?_ writes_pure
  exact writes_map (writes_setCount_set _) _

theorem writes_putMembers (result : List Bytes) :
    Writes (Touches .set key) (putMembers key result) := by
  refine writes_ite writes_pure (writes_bind (writes_set touches_typeOfKeyGet) fun _ => ?_)
  exact writes_forM fun member _ => writes_set (touches_setMemberKey member _)

theorem writes_storeMembers (result : List Bytes) :
    Writes (Touches .set key) (storeMembers key result) := by
  refine writes_read fun all => writes_bind (writes_deleteMembers _) fun _ => ?_
  refine writes_bind (writes_putMembers result) fun _ => ?_
  exact writes_map (writes_setCount_set _) _

theorem writes_sStoreTxn (op : SetOp) (keys : List Bytes) :
    Writes (Touches .set key) (sStoreTxn op key keys) :=
  writes_read fun result => writes_storeMembers result

theorem writes_decrCount : Writes (Touches .set key) (decrCount key) := by
  refine writes_get_bind writes_pure fun e => ?_
  exact writes_ite (writes_setCount_set _) writes_pure

theorem writes_sMoveTxn (source destination member : Bytes) :
    Writes (fun p e => Touches .set source p e ∨ Touches .set destination p e)
      (sMoveTxn source destination member) := by
  refine writes_read fun old => writes_ite writes_pure ?_
  refine writes_read fun inDest => ?_
  refine writes_bind (writes_delete (.inl (touches_setMemberKey member _))) fun _ => ?_
  refine writes_bind (writes_decrCount.mono fun p e h => .inl h) fun _ => ?_
  refine writes_ite writes_pure ?_
  refine writes_bind (writes_set (.inr touches_typeOfKeyGet)) fun _ => ?_
  refine writes_bind (writes_set (.inr (touches_setMemberKey member _))) fun _ => ?_
  refine writes_read fun count => ?_
  exact writes_map ((writes_setCount_set _).mono fun p e h => .inr h) _

theorem views_sCard (key : Bytes) : Views .set key (sCard key) :=
  views_checkKeyTypeInline (Hashes.reads_getCount (isRecord_setCountKey key))

theorem views_sIsMember (key member : Bytes) : Views .set key (sIsMember key member) := by
  refine views_checkKeyTypeInline ?_
  exact reads_bind (reads_get (isRecord_setMemberKey key member)) fun _ => reads_pure

theorem reads_getAllMembers (key : Bytes) : Reads (IsRecord .set key) (getAllMembers key) :=
  reads_bind (reads_scan fun _ hp => isRecord_of_memberPrefix hp) fun _ => reads_pure

theorem views_sMembers (key : Bytes) : Views .set key (sMembers key) :=
  views_checkKeyTypeInline (reads_getAllMembers key)

end Footprints

/-! ## The methods that write one key -/

inductive Op
  | sAdd (members : List Bytes)
  | sRem (members : List Bytes)
  | sPop (pick : Nat)
  | sPopN (count : Int64) (picks : Nat → Nat)

def Op.run (now : Nat) (key : Bytes) : Op → Run Err Unit
  | sAdd members => void (Sets.sAdd now key members)
  | sRem members => void (Sets.sRem now key members)
  | sPop pick => void (Sets.sPop now key pick)
  | sPopN count picks => void (Sets.sPopN now key count picks)

theorem Op.commits (now : Nat) (key : Bytes) (op : Op) :
    Commits (unix now) (Touches .set key) (op.run now key) := by
  cases op with
  | sAdd members => exact commits_void (commits_touches (writes_sAddTxn members))
  | sRem members => exact commits_void (commits_touches (writes_sRemTxn members))
  | sPop pick => exact commits_void (commits_touches (writes_sPopTxn pick))
  | sPopN count picks => exact commits_void (commits_touches (writes_sPopNTxn count picks))

end BoltDB.Store.Sets
