import BoltDB.Store.Hashes

/-!
# Lists

`list_types.go`, `lpush_rpop.go`, `lpushpop_core.go`, `lrange_lindex.go`, `linsert.go`, `ltrim.go`
and `LMove` of `blpop.go`. A list is a doubly linked ring of nodes: `LIST:key:id` holds a value,
`LIST:key:id:next` and `LIST:key:id:prev` the links, and three records the length, the first and
the last node. Names of new nodes are arguments. `deleteNode` leaves the value of a node in place.
-/

namespace BoltDB.Store.Lists

open Bytes KeyValue Txn

/-! ## Nodes -/

structure Meta where
  length : UInt64
  start : Bytes
  stop : Bytes
  deriving DecidableEq

def lengthKey (key : Bytes) : Bytes := listKey key "length"

def startKey (key : Bytes) : Bytes := listKey key "start"

def endKey (key : Bytes) : Bytes := listKey key "end"

def nextKey (key id : Bytes) : Bytes := listKey key (id ++ ":next")

def prevKey (key id : Bytes) : Bytes := listKey key (id ++ ":prev")

/-- The link towards the end (`forward`) or the start. -/
def linkKey (forward : Bool) (key id : Bytes) : Bytes :=
  if forward then nextKey key id else prevKey key id

/-- `listGetMetaTxn`: the length record decides whether there is a list. -/
def listGetMeta (key : Bytes) : View Err Meta := do
  match ← View.get (lengthKey key) with
  | none => return ⟨0, [], []⟩
  | some e => do
    let start ← View.get (startKey key)
    let stop ← View.get (endKey key)
    return ⟨bytesToUint64 e.value, (start.map (·.value)).getD [], (stop.map (·.value)).getD []⟩

/-- A record that has to be there. -/
def fetch (p : Bytes) : View Err Bytes := do
  match ← View.get p with
  | none => throw .keyNotFound
  | some e => return e.value

def listUpdateMeta (key : Bytes) (m : Meta) : Txn Err Unit := do
  set (lengthKey key) (uint64ToBytes m.length)
  set (startKey key) m.start
  set (endKey key) m.stop

/-- A record of a node, unless the node has no name. -/
def setUnlessEmpty (id p v : Bytes) : Txn Err Unit := if id = [] then pure () else set p v

def linkNodes (key prevID nextID : Bytes) : Txn Err Unit := do
  setUnlessEmpty prevID (nextKey key prevID) nextID
  setUnlessEmpty nextID (prevKey key nextID) prevID

/-- The links go, the value stays: the first name ends in `:`. -/
def deleteNode (key id : Bytes) : Txn Err Unit := do
  delete (listKey key (id ++ ":"))
  delete (prevKey key id)
  delete (nextKey key id)

/-- What `LPop` and `RPop` delete. -/
def removeNode (key id : Bytes) : Txn Err Unit := do
  delete (listKey key id)
  delete (prevKey key id)
  delete (nextKey key id)

/-! ## Reading -/

/-- An index below 0 counts from the end; the result is kept inside the list. -/
def bounds (length : UInt64) (start stop : Int64) : Int × Int :=
  let len := length.toInt64
  let start := (if start < 0 then len + start else start).toInt
  let stop := (if stop < 0 then len + stop else stop).toInt
  (max start 0, min stop (len.toInt - 1))

/-- `n` links on from a node; nothing when a node comes up twice. -/
def walk (forward : Bool) (key : Bytes) : Nat → List Bytes → Bytes → View Err (Option Bytes)
  | 0, _, cur => pure (some cur)
  | n + 1, visited, cur =>
    if cur ∈ visited then pure none
    else do
      let next ← fetch (linkKey forward key cur)
      walk forward key n (cur :: visited) next

/-- The values of up to `n` nodes from a node on. -/
def collect (forward : Bool) (key : Bytes) : Nat → List Bytes → Bytes → View Err (List Bytes)
  | 0, _, _ => pure []
  | n + 1, visited, cur =>
    if cur ∈ visited then pure []
    else do
      let v ← fetch (listKey key cur)
      if n = 0 then return [v]
      else do
        let next ← fetch (linkKey forward key cur)
        let rest ← collect forward key n (cur :: visited) next
        return v :: rest

def collectFrom (forward : Bool) (key : Bytes) (skip count : Nat) (cur : Bytes) :
    View Err (List Bytes) := do
  match ← walk forward key skip [] cur with
  | none => return []
  | some cur => collect forward key count [] cur

def lLen (key : Bytes) : View Err UInt64 := do
  checkKeyTypeInline key .list
  getCount (lengthKey key)

/-- `LRANGE`, from the end when the range reaches into the second half. -/
def lRange (key : Bytes) (start stop : Int64) : View Err (List Bytes) := do
  checkKeyType key .list
  let m ← listGetMeta key
  let b := bounds m.length start stop
  if m.length = 0 ∨ b.2 < b.1 then return []
  else
    let count := (b.2 - b.1 + 1).toNat
    if m.length.toInt64.toInt.tdiv 2 < b.2 then do
      let skip := ((m.length - 1).toInt64.toInt - b.2).toNat
      return (← collectFrom false key skip count m.stop).reverse
    else collectFrom true key b.1.toNat count m.start

/-- The node at an index inside the list, from the nearer end. -/
def walkToIndex (key : Bytes) (m : Meta) (i : Int) : View Err (Option Bytes) :=
  let len := m.length.toInt64.toInt
  if i < len.tdiv 2 then walk true key i.toNat [] m.start
  else walk false key (len - 1 - i).toNat [] m.stop

/-- `getNodeByIndex`: the node and its value. -/
def getNodeByIndex (key : Bytes) (index : Int64) : View Err (Option (Bytes × Bytes)) := do
  let m ← listGetMeta key
  let len := m.length.toInt64
  let i := (if index < 0 then len + index else index).toInt
  if m.length = 0 ∨ i < 0 ∨ len.toInt ≤ i then return none
  else do
    match ← walkToIndex key m i with
    | none => return none
    | some id => return some (id, ← fetch (listKey key id))

def lIndex (key : Bytes) (index : Int64) : View Err Bytes := do
  checkKeyType key .list
  return ((← getNodeByIndex key index).map Prod.snd).getD []

/-! ## Pushing -/

/-- One value at an end of the list, in a node with a given name. -/
def pushNode (toLeft : Bool) (key : Bytes) (m : Meta) (node : Bytes × Bytes) : Txn Err Meta := do
  set (listKey key node.1) node.2
  if m.length = 0 then do
    linkNodes key node.1 node.1
    return ⟨m.length + 1, node.1, node.1⟩
  else if toLeft then do
    linkNodes key node.1 m.start
    set (prevKey key m.start) node.1
    return ⟨m.length + 1, node.1, m.stop⟩
  else do
    linkNodes key m.stop node.1
    set (nextKey key m.stop) node.1
    return ⟨m.length + 1, m.start, node.1⟩

/-- The values with names for their nodes. -/
def withIDs (ids : Nat → Bytes) (values : List Bytes) : List (Bytes × Bytes) :=
  values.zipIdx.map fun vi => (ids vi.2, vi.1)

def pushNodes (toLeft : Bool) (key : Bytes) (nodes : List (Bytes × Bytes)) : Txn Err UInt64 := do
  let m ← listGetMeta key
  let m ← nodes.foldlM (pushNode toLeft key) m
  listUpdateMeta key m
  return m.length

/-- `LPush` and `RPush`. -/
def pushTxn (toLeft : Bool) (key : Bytes) (nodes : List (Bytes × Bytes)) : Txn Err UInt64 := do
  checkKeyTypeInline key .list
  set (typeOfKeyGet key) KeyType.list.name
  pushNodes toLeft key nodes

/-- `listPushXInTxn`: only a key that is a list already. -/
def pushXTxn (toLeft : Bool) (key : Bytes) (nodes : List (Bytes × Bytes)) : Txn Err UInt64 := do
  match ← get (typeOfKeyGet key) with
  | none => return 0
  | some e => if e.value = KeyType.list.name then pushNodes toLeft key nodes else throw .wrongType

/-! ## Popping -/

/-- The far end of the list linked with the node that is the near end now. -/
def linkEnds (fromLeft : Bool) (key far near : Bytes) : Txn Err Unit :=
  if fromLeft then linkNodes key far near else linkNodes key near far

/-- The list without its first or last node, which `next` follows; the ends are linked. -/
def unlinkEnd (fromLeft : Bool) (key : Bytes) (m : Meta) (node : Bytes) : Txn Err Meta := do
  if 1 < m.length then do
    let next ← fetch (linkKey fromLeft key node)
    linkEnds fromLeft key (if fromLeft then m.stop else m.start) next
    return if fromLeft then ⟨m.length - 1, next, m.stop⟩ else ⟨m.length - 1, m.start, next⟩
  else return ⟨m.length - 1, [], []⟩

/-- A pop, with how the node is deleted; an empty list gives an empty value. -/
def popNode (delete : Bytes → Txn Err Unit) (fromLeft : Bool) (key : Bytes) : Txn Err Bytes := do
  let m ← listGetMeta key
  if m.length = 0 then return []
  else do
    let node := if fromLeft then m.start else m.stop
    let v ← fetch (listKey key node)
    let m' ← unlinkEnd fromLeft key m node
    delete node
    listUpdateMeta key m'
    return v

/-- The transaction of `LPop` and `RPop`. -/
def popTxn (fromLeft : Bool) (key : Bytes) : Txn Err Bytes := popNode (removeNode key) fromLeft key

/-- `listPopInTxn`. -/
def listPopInTxn (fromLeft : Bool) (key : Bytes) : Txn Err Bytes :=
  popNode (deleteNode key) fromLeft key

/-- After a pop from another list: an empty value is not pushed. -/
def pushPopped (toLeft : Bool) (destination id value : Bytes) : Txn Err Bytes := do
  if value = [] then return []
  else do
    let _ ← pushTxn toLeft destination [(id, value)]
    return value

def rPopLPushTxn (source destination id : Bytes) : Txn Err Bytes := do
  let value ← listPopInTxn false source
  pushPopped true destination id value

def lMoveTxn (source destination : Bytes) (fromLeft toLeft : Bool) (id : Bytes) :
    Txn Err Bytes := do
  checkKeyType source .list
  let value ← listPopInTxn fromLeft source
  pushPopped toLeft destination id value

/-- The loop of `LMPop`; the far end is linked as it was at the start. -/
def lMPopLoop (fromLeft : Bool) (key far : Bytes) :
    Nat → Meta → List Bytes → Txn Err (Meta × List Bytes)
  | 0, m, acc => pure (m, acc)
  | n + 1, m, acc =>
    if m.length = 0 then pure (m, acc)
    else do
      let node := if fromLeft then m.start else m.stop
      let next ← (if 1 < m.length then fetch (linkKey fromLeft key node) else pure [] :
        View Err Bytes)
      let v ← fetch (listKey key node)
      deleteNode key node
      if 1 < m.length then do
        linkEnds fromLeft key far next
        lMPopLoop fromLeft key far n
          (if fromLeft then ⟨m.length - 1, next, m.stop⟩ else ⟨m.length - 1, m.start, next⟩)
          (acc ++ [v])
      else lMPopLoop fromLeft key far n ⟨m.length - 1, [], []⟩ (acc ++ [v])

/-- `make([]string, 0, n)` panics above this: a string takes 16 bytes in a slice. -/
def maxStrings : Nat := Strings.maxAlloc / 16

/-- The counts for which `LMPop` panics when it makes the slice of its results. -/
def TooMany (count : Int64) : Prop := count < 0 ∨ maxStrings < count.toInt.toNat

instance (count : Int64) : Decidable (TooMany count) := inferInstanceAs (Decidable (_ ∨ _))

/-- `LMPop` on one of its keys. The slice for the results is only made if there is an element. -/
def lMPopTxn (fromLeft : Bool) (key : Bytes) (count : Int64) : Txn Err (List Bytes) := do
  let m ← listGetMeta key
  if m.length = 0 then return []
  else if TooMany count then throw .indexOutOfRange
  else do
    let r ← lMPopLoop fromLeft key (if fromLeft then m.stop else m.start) count.toInt.toNat m []
    listUpdateMeta key r.1
    return r.2

/-! ## Inside the list -/

def lSetTxn (key : Bytes) (index : Int64) (v : Bytes) : Txn Err Unit := do
  match ← getNodeByIndex key index with
  | none => throw .indexOutOfRange
  | some (id, _) => if id = [] then throw .indexOutOfRange else set (listKey key id) v

/-- The loop of `deleteList`. The link that it follows has just been deleted. -/
def deleteListNodes (key start : Bytes) : Nat → List Bytes → Bytes → Txn Err Unit
  | 0, _, _ => pure ()
  | fuel + 1, visited, cur =>
    if cur ∈ visited then pure ()
    else do
      deleteNode key cur
      match ← get (nextKey key cur) with
      | none => pure ()
      | some e =>
        if e.value = start then pure () else deleteListNodes key start fuel (cur :: visited) e.value

def deleteAllNodes (key start : Bytes) : Txn Err Unit :=
  if start = [] then pure ()
  else do
    let es ← scan (recordPrefix .list key)
    deleteListNodes key start (es.length + 1) [] start

def deleteList (key : Bytes) : Txn Err Unit := do
  let m ← listGetMeta key
  deleteAllNodes key m.start
  delete (lengthKey key)
  delete (startKey key)
  delete (endKey key)
  delete (typeOfKeyGet key)

/-- The nodes before the new start go. The result is the new start and the nodes visited. -/
def trimHead (key : Bytes) : Nat → List Bytes → Bytes → Txn Err (Option (Bytes × List Bytes))
  | 0, visited, cur => pure (some (cur, visited))
  | n + 1, visited, cur =>
    if cur ∈ visited then pure none
    else do
      let next ← fetch (nextKey key cur)
      deleteNode key cur
      trimHead key n (cur :: visited) next

/-- The nodes after the new end go. -/
def trimTail (key newStart : Bytes) : Nat → List Bytes → Bytes → Txn Err Unit
  | 0, _, _ => pure ()
  | fuel + 1, visited, cur => do
    match ← get (nextKey key cur) with
    | none => pure ()
    | some e =>
      if e.value = newStart ∨ e.value ∈ visited then pure ()
      else do
        deleteNode key e.value
        trimTail key newStart fuel (e.value :: visited) e.value

/-- The end of `LTrim`, once the new start and end are known. -/
def trimEnds (key newStart newEnd : Bytes) (newLength : UInt64) : Txn Err Unit := do
  let es ← scan (recordPrefix .list key)
  trimTail key newStart (es.length + 1) [newEnd, newStart] newEnd
  set (prevKey key newStart) newEnd
  set (nextKey key newEnd) newStart
  listUpdateMeta key ⟨newLength, newStart, newEnd⟩

def lTrimTxn (key : Bytes) (start stop : Int64) : Txn Err Unit := do
  let m ← listGetMeta key
  let b := bounds m.length start stop
  if m.length = 0 then pure ()
  else if b.2 < b.1 then deleteList key
  else do
    match ← trimHead key b.1.toNat [] m.start with
    | none => pure ()
    | some (newStart, visited) => do
      match ← walk true key (b.2 - b.1).toNat visited newStart with
      | none => pure ()
      | some newEnd => trimEnds key newStart newEnd (Int64.ofInt (b.2 - b.1 + 1)).toUInt64

/-- The search of `LInsert`; a missing record ends it. -/
def findPivot (key pivot : Bytes) : Nat → List Bytes → Bytes → View Err (Option Bytes)
  | 0, _, _ => pure none
  | n + 1, visited, cur =>
    if cur ∈ visited then pure none
    else do
      match ← View.get (listKey key cur) with
      | none => return none
      | some v =>
        if v.value = pivot then return some cur
        else
          match ← View.get (nextKey key cur) with
          | none => return none
          | some e => findPivot key pivot n (cur :: visited) e.value

def insertBefore (key : Bytes) (m : Meta) (pivotID id : Bytes) : Txn Err Unit := do
  let prev ← get (prevKey key pivotID)
  let prevID := (prev.map (·.value)).getD m.stop
  linkNodes key prevID id
  linkNodes key id pivotID
  listUpdateMeta key ⟨m.length + 1, if pivotID = m.start then id else m.start, m.stop⟩

def insertAfter (key : Bytes) (m : Meta) (pivotID id : Bytes) : Txn Err Unit := do
  let nextID ← fetch (nextKey key pivotID)
  linkNodes key pivotID id
  linkNodes key id nextID
  listUpdateMeta key ⟨m.length + 1, m.start, if pivotID = m.stop then id else m.stop⟩

/-- `LINSERT`: 0 without a list, -1 without the pivot, else the new length. -/
def lInsertTxn (key : Bytes) (before : Bool) (pivot v id : Bytes) : Txn Err Int := do
  let m ← listGetMeta key
  if m.length = 0 then return 0
  else do
    match ← findPivot key pivot m.length.toNat [] m.start with
    | none => return -1
    | some pivotID =>
      if pivotID = [] then return -1
      else do
        set (listKey key id) v
        (if before then insertBefore else insertAfter) key m pivotID id
        return m.length.toInt64.toInt + 1

/-- The nodes that hold a value, up to a limit if it is not 0; a missing record ends the search. -/
def findNodes (forward : Bool) (key v : Bytes) (limit : Int) :
    Nat → List Bytes → List Bytes → Bytes → View Err (List Bytes)
  | 0, _, acc, _ => pure acc
  | n + 1, visited, acc, cur =>
    if cur ∈ visited then pure acc
    else do
      match ← View.get (listKey key cur) with
      | none => return acc
      | some e =>
        let acc := if e.value = v then acc ++ [cur] else acc
        if e.value = v ∧ limit ≠ 0 ∧ limit ≤ acc.length then return acc
        else
          match ← View.get (linkKey forward key cur) with
          | none => return acc
          | some e => findNodes forward key v limit n (cur :: visited) acc e.value

/-- One node of `LRem`: its neighbours are linked, a missing one is an empty name. -/
def lRemNode (key : Bytes) (ends : Bytes × Bytes) (id : Bytes) : Txn Err (Bytes × Bytes) := do
  let prev ← get (prevKey key id)
  let next ← get (nextKey key id)
  let prevID := (prev.map (·.value)).getD []
  let nextID := (next.map (·.value)).getD []
  linkNodes key prevID nextID
  deleteNode key id
  return (if id = ends.1 then nextID else ends.1, if id = ends.2 then prevID else ends.2)

def lRemTxn (key : Bytes) (count : Int64) (v : Bytes) : Txn Err Nat := do
  let m ← listGetMeta key
  if m.length = 0 then return 0
  else do
    let fuel := m.length.toInt64.toInt.toNat
    let nodes ← (if 0 ≤ count then findNodes true key v count.toInt fuel [] [] m.start
      else findNodes false key v (-count).toInt fuel [] [] m.stop : View Err (List Bytes))
    let ends ← nodes.foldlM (lRemNode key) (m.start, m.stop)
    if nodes.isEmpty then return 0
    else do
      let newLength := m.length - UInt64.ofNat nodes.length
      listUpdateMeta key (if newLength = 0 then ⟨0, [], []⟩ else ⟨newLength, ends.1, ends.2⟩)
      return nodes.length

/-! ## Methods -/

/-- A push with no values panics after the commit. -/
def push (toLeft : Bool) (now : Nat) (key : Bytes) (values : List Bytes) (ids : Nat → Bytes) :
    Run Err UInt64 := do
  let n ← update now (pushTxn toLeft key (withIDs ids values))
  if values.isEmpty then throw .indexOutOfRange else return n

def lPush := push true

def rPush := push false

def pushX (toLeft : Bool) (now : Nat) (key : Bytes) (values : List Bytes) (ids : Nat → Bytes) :
    Run Err UInt64 := update now (pushXTxn toLeft key (withIDs ids values))

def lPushX := pushX true

def rPushX := pushX false

def pop (fromLeft : Bool) (now : Nat) (key : Bytes) : Run Err Bytes := do
  view now (checkKeyType key .list)
  update now (popTxn fromLeft key)

def lPop := pop true

def rPop := pop false

def rPopLPush (now : Nat) (source destination id : Bytes) : Run Err Bytes :=
  update now (rPopLPushTxn source destination id)

def lMove (now : Nat) (source destination : Bytes) (fromLeft toLeft : Bool) (id : Bytes) :
    Run Err Bytes := update now (lMoveTxn source destination fromLeft toLeft id)

/-- `LMPOP`: the first key that gives something. -/
def lMPop (now : Nat) (fromLeft : Bool) (count : Int64) :
    List Bytes → Run Err (Option (Bytes × List Bytes))
  | [] => pure none
  | key :: keys => do
    view now (checkKeyType key .list)
    let popped ← update now (lMPopTxn fromLeft key count)
    if popped.isEmpty then lMPop now fromLeft count keys else return some (key, popped)

def lSet (now : Nat) (key : Bytes) (index : Int64) (v : Bytes) : Run Err Unit :=
  update now (lSetTxn key index v)

def lTrim (now : Nat) (key : Bytes) (start stop : Int64) : Run Err Unit :=
  update now (lTrimTxn key start stop)

def lInsert (now : Nat) (key : Bytes) (before : Bool) (pivot v id : Bytes) : Run Err Int :=
  update now (lInsertTxn key before pivot v id)

def lRem (now : Nat) (key : Bytes) (count : Int64) (v : Bytes) : Run Err Nat :=
  update now (lRemTxn key count v)

/-! ## Footprints -/

section Footprints

variable {key : Bytes}

theorem touches_listKey (part : Bytes) (e : Option Entry) :
    Touches .list key (listKey key part) e := touches_record (isRecord_listKey key part)

theorem writes_setList {part v : Bytes} :
    Writes (Touches .list key) (set (listKey key part) v : Txn Err Unit) :=
  writes_set (touches_listKey part _)

theorem writes_deleteList_record (part : Bytes) :
    Writes (Touches .list key) (delete (listKey key part) : Txn Err Unit) :=
  writes_delete (touches_listKey part _)

theorem writes_listUpdateMeta (m : Meta) : Writes (Touches .list key) (listUpdateMeta key m) :=
  writes_bind writes_setList fun _ =>
    writes_bind writes_setList fun _ => writes_setList

theorem writes_linkNodes {prevID nextID : Bytes} :
    Writes (Touches .list key) (linkNodes key prevID nextID) :=
  writes_bind (writes_ite writes_pure writes_setList)
    fun _ => writes_ite writes_pure writes_setList

theorem writes_deleteNode (id : Bytes) : Writes (Touches .list key) (deleteNode key id) :=
  writes_bind (writes_deleteList_record _) fun _ =>
    writes_bind (writes_deleteList_record _) fun _ => writes_deleteList_record _

theorem writes_removeNode (id : Bytes) : Writes (Touches .list key) (removeNode key id) :=
  writes_bind (writes_deleteList_record _) fun _ =>
    writes_bind (writes_deleteList_record _) fun _ => writes_deleteList_record _

theorem writes_pushNode (toLeft : Bool) (m : Meta) (node : Bytes × Bytes) :
    Writes (Touches .list key) (pushNode toLeft key m node) := by
  refine writes_bind writes_setList fun _ => writes_ite ?_ (writes_ite ?_ ?_)
  · exact writes_map writes_linkNodes _
  · refine writes_bind writes_linkNodes fun _ => ?_
    exact writes_map writes_setList _
  · refine writes_bind writes_linkNodes fun _ => ?_
    exact writes_map writes_setList _

theorem writes_pushNodes (toLeft : Bool) (nodes : List (Bytes × Bytes)) :
    Writes (Touches .list key) (pushNodes toLeft key nodes) := by
  refine writes_read fun m => ?_
  refine writes_bind (writes_foldlM (writes_pushNode toLeft) _ _) fun m => ?_
  exact writes_map (writes_listUpdateMeta m) _

theorem writes_pushTxn (toLeft : Bool) (nodes : List (Bytes × Bytes)) :
    Writes (Touches .list key) (pushTxn toLeft key nodes) := by
  refine writes_read fun _ => ?_
  exact writes_bind (writes_set touches_typeOfKeyGet) fun _ => writes_pushNodes toLeft nodes

theorem writes_pushXTxn (toLeft : Bool) (nodes : List (Bytes × Bytes)) :
    Writes (Touches .list key) (pushXTxn toLeft key nodes) := by
  refine writes_get_bind writes_pure fun e => ?_
  exact writes_ite (writes_pushNodes toLeft nodes) writes_throw

theorem writes_linkEnds (fromLeft : Bool) (far near : Bytes) :
    Writes (Touches .list key) (linkEnds fromLeft key far near) :=
  writes_ite writes_linkNodes writes_linkNodes

theorem writes_unlinkEnd (fromLeft : Bool) (m : Meta) (node : Bytes) :
    Writes (Touches .list key) (unlinkEnd fromLeft key m node) := by
  refine writes_ite (writes_read fun next => ?_) writes_pure
  exact writes_map (writes_linkEnds _ _ _) _

theorem writes_popNode {delete : Bytes → Txn Err Unit} (fromLeft : Bool)
    (h : ∀ id, Writes (Touches .list key) (delete id)) :
    Writes (Touches .list key) (popNode delete fromLeft key) := by
  refine writes_read fun m => writes_ite writes_pure ?_
  refine writes_read fun v => ?_
  refine writes_bind (writes_unlinkEnd _ _ _) fun m' => writes_bind (h _) fun _ => ?_
  exact writes_map (writes_listUpdateMeta m') _

theorem writes_popTxn (fromLeft : Bool) : Writes (Touches .list key) (popTxn fromLeft key) :=
  writes_popNode fromLeft writes_removeNode

theorem writes_listPopInTxn (fromLeft : Bool) :
    Writes (Touches .list key) (listPopInTxn fromLeft key) :=
  writes_popNode fromLeft writes_deleteNode

theorem writes_pushPopped (toLeft : Bool) (id v : Bytes) :
    Writes (Touches .list key) (pushPopped toLeft key id v) := by
  refine writes_ite writes_pure ?_
  exact writes_map (writes_pushTxn toLeft _) _

/-- What a transaction that moves a value from one list to another may do. -/
def TouchesEither (source destination p : Bytes) (e : Option Entry) : Prop :=
  Touches .list source p e ∨ Touches .list destination p e

theorem writes_rPopLPushTxn (source destination id : Bytes) :
    Writes (TouchesEither source destination) (rPopLPushTxn source destination id) := by
  refine writes_bind ((writes_listPopInTxn false).mono fun p e h => .inl h) fun v => ?_
  exact (writes_pushPopped true id v).mono fun p e h => .inr h

theorem writes_lMoveTxn (source destination : Bytes) (fromLeft toLeft : Bool) (id : Bytes) :
    Writes (TouchesEither source destination)
      (lMoveTxn source destination fromLeft toLeft id) := by
  refine writes_read fun _ => ?_
  refine writes_bind ((writes_listPopInTxn fromLeft).mono fun p e h => .inl h) fun v => ?_
  exact (writes_pushPopped toLeft id v).mono fun p e h => .inr h

theorem writes_lMPopLoop (fromLeft : Bool) (far : Bytes) (n : Nat) (m : Meta) (acc : List Bytes) :
    Writes (Touches .list key) (lMPopLoop fromLeft key far n m acc) := by
  induction n generalizing m acc with
  | zero => exact writes_pure
  | succ n ih =>
    refine writes_ite writes_pure (writes_read fun next => ?_)
    refine writes_read fun v => writes_bind (writes_deleteNode _) fun _ => ?_
    refine writes_ite ?_ (ih _ _)
    exact writes_bind (writes_linkEnds _ _ _) fun _ => ih _ _

theorem writes_lMPopTxn (fromLeft : Bool) (count : Int64) :
    Writes (Touches .list key) (lMPopTxn fromLeft key count) := by
  refine writes_read fun m => writes_ite writes_pure ?_
  refine writes_ite writes_throw (writes_bind (writes_lMPopLoop _ _ _ _ _) fun r => ?_)
  exact writes_map (writes_listUpdateMeta _) _

theorem writes_lSetTxn (index : Int64) (v : Bytes) :
    Writes (Touches .list key) (lSetTxn key index v) := by
  refine writes_read fun node => ?_
  split
  · exact writes_throw
  · exact writes_ite writes_throw writes_setList

theorem writes_deleteListNodes (start : Bytes) (fuel : Nat) (visited : List Bytes) (cur : Bytes) :
    Writes (Touches .list key) (deleteListNodes key start fuel visited cur) := by
  induction fuel generalizing visited cur with
  | zero => exact writes_pure
  | succ fuel ih =>
    refine writes_ite writes_pure (writes_bind (writes_deleteNode cur) fun _ => ?_)
    refine writes_get_bind writes_pure fun e => ?_
    exact writes_ite writes_pure (ih _ _)

theorem writes_deleteAllNodes (start : Bytes) :
    Writes (Touches .list key) (deleteAllNodes key start) :=
  writes_ite writes_pure
    (writes_read fun _ => writes_deleteListNodes _ _ _ _)

theorem writes_deleteList : Writes (MayRemove .list key) (deleteList key) := by
  have hdel : ∀ part, Writes (MayRemove .list key)
      (delete (listKey key part) : Txn Err Unit) :=
    fun part => (writes_deleteList_record part).mono fun _ _ h => h.mayRemove
  refine writes_read fun m => ?_
  refine writes_bind ((writes_deleteAllNodes _).mono fun _ _ h => h.mayRemove) fun _ => ?_
  refine writes_bind (hdel _) fun _ => writes_bind (hdel _) fun _ => writes_bind (hdel _) fun _ => ?_
  exact writes_delete (.inl ⟨rfl, .inr rfl⟩)

theorem writes_trimHead (n : Nat) (visited : List Bytes) (cur : Bytes) :
    Writes (Touches .list key) (trimHead key n visited cur) := by
  induction n generalizing visited cur with
  | zero => exact writes_pure
  | succ n ih =>
    refine writes_ite writes_pure (writes_read fun next => ?_)
    exact writes_bind (writes_deleteNode cur) fun _ => ih _ _

theorem writes_trimTail (newStart : Bytes) (fuel : Nat) (visited : List Bytes) (cur : Bytes) :
    Writes (Touches .list key) (trimTail key newStart fuel visited cur) := by
  induction fuel generalizing visited cur with
  | zero => exact writes_pure
  | succ fuel ih =>
    refine writes_get_bind writes_pure fun e => ?_
    refine writes_ite writes_pure ?_
    exact writes_bind (writes_deleteNode _) fun _ => ih _ _

theorem writes_trimEnds (newStart newEnd : Bytes) (newLength : UInt64) :
    Writes (Touches .list key) (trimEnds key newStart newEnd newLength) := by
  refine writes_read fun es => writes_bind (writes_trimTail _ _ _ _) fun _ => ?_
  refine writes_bind writes_setList fun _ => writes_bind writes_setList fun _ => ?_
  exact writes_listUpdateMeta _

theorem writes_lTrimTxn (start stop : Int64) :
    Writes (MayRemove .list key) (lTrimTxn key start stop) := by
  refine writes_read fun m => writes_ite writes_pure ?_
  refine writes_ite writes_deleteList ?_
  refine writes_bind ((writes_trimHead _ _ _).mono fun _ _ h => h.mayRemove) fun r => ?_
  split
  · exact writes_pure
  · refine writes_read fun newEnd => ?_
    split
    · exact writes_pure
    · exact (writes_trimEnds _ _ _).mono fun _ _ h => h.mayRemove

theorem writes_insertBefore (m : Meta) (pivotID id : Bytes) :
    Writes (Touches .list key) (insertBefore key m pivotID id) := by
  refine writes_read fun prev => writes_bind writes_linkNodes fun _ => ?_
  exact writes_bind writes_linkNodes fun _ => writes_listUpdateMeta _

theorem writes_insertAfter (m : Meta) (pivotID id : Bytes) :
    Writes (Touches .list key) (insertAfter key m pivotID id) := by
  refine writes_read fun next => writes_bind writes_linkNodes fun _ => ?_
  exact writes_bind writes_linkNodes fun _ => writes_listUpdateMeta _

theorem writes_lInsertTxn (before : Bool) (pivot v id : Bytes) :
    Writes (Touches .list key) (lInsertTxn key before pivot v id) := by
  refine writes_read fun m => writes_ite writes_pure ?_
  refine writes_read fun pivotID => ?_
  split
  · exact writes_pure
  · refine writes_ite writes_pure (writes_bind writes_setList fun _ => ?_)
    refine writes_bind ?_ fun _ => writes_pure
    cases before
    · exact writes_insertAfter _ _ _
    · exact writes_insertBefore _ _ _

theorem writes_lRemNode (ends : Bytes × Bytes) (id : Bytes) :
    Writes (Touches .list key) (lRemNode key ends id) := by
  refine writes_read fun prev => writes_read fun next => ?_
  refine writes_bind writes_linkNodes fun _ => ?_
  exact writes_map (writes_deleteNode id) _

theorem writes_lRemTxn (count : Int64) (v : Bytes) :
    Writes (Touches .list key) (lRemTxn key count v) := by
  refine writes_read fun m => writes_ite writes_pure ?_
  refine writes_read fun nodes => ?_
  refine writes_bind (writes_foldlM writes_lRemNode _ _) fun ends => writes_ite writes_pure ?_
  exact writes_map (writes_listUpdateMeta _) _

theorem reads_listKey {key : Bytes} (part : Bytes) :
    Reads (IsRecord .list key) (View.get (listKey key part) : View Err _) :=
  reads_get (isRecord_listKey key part)

theorem reads_listGetMeta (key : Bytes) : Reads (IsRecord .list key) (listGetMeta key) := by
  refine reads_bind (reads_listKey _) fun e => ?_
  split
  · exact reads_pure
  · exact reads_bind (reads_listKey _) fun _ => reads_bind (reads_listKey _) fun _ => reads_pure

theorem reads_fetch (part : Bytes) : Reads (IsRecord .list key) (fetch (listKey key part)) := by
  refine reads_bind (reads_listKey part) fun e => ?_
  split
  · exact reads_throw _
  · exact reads_pure

theorem reads_fetch_link (forward : Bool) (id : Bytes) :
    Reads (IsRecord .list key) (fetch (linkKey forward key id)) := by
  cases forward
  · exact reads_fetch _
  · exact reads_fetch _

theorem reads_walk (forward : Bool) (n : Nat) (visited : List Bytes) (cur : Bytes) :
    Reads (IsRecord .list key) (walk forward key n visited cur) := by
  induction n generalizing visited cur with
  | zero => exact reads_pure
  | succ n ih =>
    refine reads_ite reads_pure ?_
    exact reads_bind (reads_fetch_link forward cur) fun next => ih _ _

theorem reads_collect (forward : Bool) (n : Nat) (visited : List Bytes) (cur : Bytes) :
    Reads (IsRecord .list key) (collect forward key n visited cur) := by
  induction n generalizing visited cur with
  | zero => exact reads_pure
  | succ n ih =>
    refine reads_ite reads_pure (reads_bind (reads_fetch cur) fun v => ?_)
    refine reads_ite reads_pure ?_
    refine reads_bind (reads_fetch_link forward cur) fun next => ?_
    exact reads_bind (ih _ _) fun _ => reads_pure

theorem reads_collectFrom (forward : Bool) (skip count : Nat) (cur : Bytes) :
    Reads (IsRecord .list key) (collectFrom forward key skip count cur) := by
  refine reads_bind (reads_walk _ _ _ _) fun r => ?_
  split
  · exact reads_pure
  · exact reads_collect _ _ _ _

theorem views_lLen (key : Bytes) : Views .list key (lLen key) :=
  views_checkKeyTypeInline (Hashes.reads_getCount (isRecord_listKey key _))

theorem views_lRange (key : Bytes) (start stop : Int64) :
    Views .list key (lRange key start stop) := by
  refine views_checkKeyType ?_
  refine reads_bind (reads_listGetMeta key) fun m => reads_ite reads_pure (reads_ite ?_ ?_)
  · exact reads_bind (reads_collectFrom _ _ _ _) fun _ => reads_pure
  · exact reads_collectFrom _ _ _ _

end Footprints

/-! ## The methods that write one key -/

inductive Op
  | push (toLeft : Bool) (values : List Bytes) (ids : Nat → Bytes)
  | pushX (toLeft : Bool) (values : List Bytes) (ids : Nat → Bytes)
  | pop (fromLeft : Bool)
  | lSet (index : Int64) (v : Bytes)
  | lTrim (start stop : Int64)
  | lInsert (before : Bool) (pivot v id : Bytes)
  | lRem (count : Int64) (v : Bytes)

def Op.run (now : Nat) (key : Bytes) : Op → Run Err Unit
  | push toLeft values ids => void (Lists.push toLeft now key values ids)
  | pushX toLeft values ids => void (Lists.pushX toLeft now key values ids)
  | pop fromLeft => void (Lists.pop fromLeft now key)
  | lSet index v => Lists.lSet now key index v
  | lTrim start stop => Lists.lTrim now key start stop
  | lInsert before pivot v id => void (Lists.lInsert now key before pivot v id)
  | lRem count v => void (Lists.lRem now key count v)

theorem commits_push (toLeft : Bool) (now : Nat) (key : Bytes) (values : List Bytes)
    (ids : Nat → Bytes) :
    Commits (unix now) (Touches .list key) (push toLeft now key values ids) :=
  commits_bind (commits_touches (writes_pushTxn toLeft _))
    fun _ => commits_ite (commits_throw _) commits_pure

theorem commits_pop (fromLeft : Bool) (now : Nat) (key : Bytes) :
    Commits (unix now) (Touches .list key) (pop fromLeft now key) :=
  commits_bind (commits_view _) fun _ => commits_touches (writes_popTxn fromLeft)

theorem Op.commits (now : Nat) (key : Bytes) (op : Op) :
    Commits (unix now) (MayRemove .list key) (op.run now key) := by
  cases op with
  | push toLeft values ids =>
    exact (commits_void (commits_push toLeft now key values ids)).mono fun p e => Touches.mayRemove
  | pushX toLeft values ids =>
    exact (commits_void (commits_touches (writes_pushXTxn toLeft _))).mono
      fun p e => Touches.mayRemove
  | pop fromLeft =>
    exact (commits_void (commits_pop fromLeft now key)).mono fun p e => Touches.mayRemove
  | lSet index v =>
    exact (commits_touches (writes_lSetTxn index v)).mono fun p e => Touches.mayRemove
  | lTrim start stop => exact commits_mayRemove (writes_lTrimTxn start stop)
  | lInsert before pivot v id =>
    exact (commits_void (commits_touches (writes_lInsertTxn before pivot v id))).mono
      fun p e => Touches.mayRemove
  | lRem count v =>
    exact (commits_void (commits_touches (writes_lRemTxn count v))).mono
      fun p e => Touches.mayRemove

end BoltDB.Store.Lists
