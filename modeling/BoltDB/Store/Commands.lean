import BoltDB.Store.Sets
import BoltDB.Store.Lists
import BoltDB.Store.SortedSets
import BoltDB.Store.Rename
import BoltDB.Store.Keyspace
import BoltDB.Store.TimeSeries

/-!
# Commands

The methods of the store as data: those that write one key (`KeyOp`), all that write (`Op`), those
that look at one key (`Read`) and those that list the keys (`Listing`). A state is reachable when
some sequence of methods, with time passing in between, leads to it from the empty store.
-/

namespace BoltDB.Store

open Bytes KeyValue

/-! ## Writing -/

/-- A method of the JSON, time series, stream, HyperLogLog or geo files: one transaction that writes
the records of its key. -/
structure Method where
  txn : Nat → Bytes → Txn Err Unit
  writes : ∀ now key, Writes (Owned key) (txn now key)

namespace Method

open TimeSeries

/-- `TS.ADD`. -/
def tsAdd (timestamp : Int64) (value : F64) (o : AddOptions) : Method where
  txn _ key := tsAddTxn key timestamp value o >>= fun _ => pure ()
  writes _ _ := (writes_map (writes_tsAddTxn timestamp value o) _).mono fun _ _ h => h.owned

/-- `TS.DEL`. -/
def tsDel (start stop : Bytes) : Method where
  txn now key := tsDelTxn now key start stop >>= fun _ => pure ()
  writes now _ := (writes_map (writes_tsDelTxn now start stop) _).mono fun _ _ h => h.owned

end Method

/-- The methods that write one key. -/
inductive KeyOp
  | string (op : Strings.Op)
  | hash (op : Hashes.Op)
  | set (op : Sets.Op)
  | list (op : Lists.Op)
  | sortedSet (op : SortedSets.Op)
  | other (m : Method)
  | del
  | delString
  | expire (seconds : Int64)
  | expireAt (timestamp : Int64)
  | pExpire (milliseconds : Int64)
  | pExpireAt (timestampMillis : Int64)
  | persist

inductive Op
  | single (key : Bytes) (op : KeyOp)
  | mSet (pairs : List (Bytes × Bytes))
  | mSetNX (pairs : List (Bytes × Bytes))
  | bitOp (op dest : Bytes) (keys : List Bytes)
  | sMove (source destination member : Bytes)
  | sStore (op : Sets.SetOp) (destination : Bytes) (keys : List Bytes)
  | rPopLPush (source destination id : Bytes)
  | lMove (source destination : Bytes) (fromLeft toLeft : Bool) (id : Bytes)
  | lMPop (keys : List Bytes) (fromLeft : Bool) (count : Int64)
  | zMPop (keys : List Bytes) (max : Bool) (count : Int64)
  | zUnionStore (destination : Bytes) (keys : List Bytes) (weights : List F64) (aggregate : Bytes)
  | zInterStore (destination : Bytes) (keys : List Bytes) (weights : List F64) (aggregate : Bytes)
  | zDiffStore (destination : Bytes) (keys : List Bytes)
  | rename (key newKey : Bytes)
  | renameNX (key newKey : Bytes)
  | flushDB

section

variable (c : Codec) (now : Nat)

def KeyOp.run (key : Bytes) : KeyOp → Run Err Unit
  | string op => op.run c now key
  | hash op => op.run c now key
  | set op => op.run now key
  | list op => op.run now key
  | sortedSet op => op.run now key
  | other m => update now (m.txn now key)
  | del => void (Store.del now key)
  | delString => Store.delString now key
  | expire seconds => void (Store.expire now key seconds)
  | expireAt timestamp => void (Store.expireAt now key timestamp)
  | pExpire milliseconds => void (Store.pExpire now key milliseconds)
  | pExpireAt timestampMillis => void (Store.pExpireAt now key timestampMillis)
  | persist => void (Store.persist now key)

def Op.run : Op → Run Err Unit
  | single key op => op.run c now key
  | mSet pairs => Strings.mSet now pairs
  | mSetNX pairs => void (Strings.mSetNX now pairs)
  | bitOp op dest keys => void (Strings.bitOp c now op dest keys)
  | sMove source destination member => void (Sets.sMove now source destination member)
  | sStore op destination keys => void (update now (Sets.sStoreTxn op destination keys))
  | rPopLPush source destination id => void (Lists.rPopLPush now source destination id)
  | lMove source destination fromLeft toLeft id =>
    void (Lists.lMove now source destination fromLeft toLeft id)
  | lMPop keys fromLeft count => void (Lists.lMPop now fromLeft count keys)
  | zMPop keys max count => void (SortedSets.zMPop now max count keys)
  | zUnionStore destination keys weights aggregate =>
    void (SortedSets.zUnionStore now destination keys weights aggregate)
  | zInterStore destination keys weights aggregate =>
    void (SortedSets.zInterStore now destination keys weights aggregate)
  | zDiffStore destination keys => void (SortedSets.zDiffStore now destination keys)
  | rename key newKey => Store.rename now key newKey
  | renameNX key newKey => void (Store.renameNX now key newKey)
  | flushDB => fun _ => (.ok (), ∅)

end

/-- The states at a time, from the empty store on. -/
inductive Reachable (c : Codec) : Nat → Db → Prop
  | init (now : Nat) : Reachable c now ∅
  | wait {now later : Nat} {db : Db} : Reachable c now db → now ≤ later → Reachable c later db
  | step {now : Nat} {db : Db} (op : Op) : Reachable c now db → Reachable c now (op.run c now db).2

/-! ## Reading -/

inductive Answer
  | text (s : String)
  | flag (b : Bool)
  | count (n : Int)
  | value (v : Bytes)
  | score (s : Option F64)
  | values (vs : List Bytes)
  | fields (fs : List (Bytes × Bytes))
  | members (ms : List (Bytes × F64))
  deriving DecidableEq

/-- The methods that look at one key. -/
inductive Read
  | type
  | exist
  | ttl
  | get
  | hGet (field : Bytes)
  | hGetAll
  | hLen
  | sMembers
  | sIsMember (member : Bytes)
  | sCard
  | lRange (start stop : Int64)
  | lLen
  | zRange (start stop : Int64)
  | zScore (member : Bytes)
  | zCard

/-- The methods that list keys. -/
inductive Listing
  | keys (pattern : Bytes)
  | scan (bookmark : Option Bytes) (pattern : Bytes) (count : Int64)
  | dbSize

def Read.answer (c : Codec) (now : Nat) (key : Bytes) : Read → View Err Answer
  | type => do return .text (← keyTypeName key)
  | exist => do return .flag (← keyExists key)
  | ttl => do return .count (← Store.ttl now key)
  | get => do return .value (← Strings.get c key)
  | hGet field => do return .value (← Hashes.hGet c key field)
  | hGetAll => do return .fields (← Hashes.hGetAll c key).toList
  | hLen => do return .count (← Hashes.hLen key).toNat
  | sMembers => do return .values (← Sets.sMembers key)
  | sIsMember member => do return .flag (← Sets.sIsMember key member)
  | sCard => do return .count (← Sets.sCard key).toNat
  | lRange start stop => do return .values (← Lists.lRange key start stop)
  | lLen => do return .count (← Lists.lLen key).toNat
  | zRange start stop => do return .members (← SortedSets.zRange key start stop)
  | zScore member => do return .score (← SortedSets.zScore key member)
  | zCard => do return .count (← SortedSets.zCard key).toInt

def Listing.answer : Listing → View Err Answer
  | keys pattern => do return .values (← Store.keys pattern)
  | scan bookmark pattern count => do return .values (← scanFrom bookmark pattern count).1
  | dbSize => do return .count (← Store.dbSize)

/-- What a method that looks at one key answers at a time. -/
def Read.at (c : Codec) (now : Nat) (key : Bytes) (r : Read) (db : Db) : Except Err Answer :=
  r.answer c now key (visible (unix now) db)

/-! ## Footprints -/

theorem KeyOp.commits (c : Codec) (now : Nat) (key : Bytes) (op : KeyOp) :
    Commits (unix now) (Owned key) (op.run c now key) := by
  cases op with
  | string op => exact (op.commits c now key).mono fun p e => Touches.owned
  | hash op => exact (op.commits c now key).mono fun p e => Touches.owned
  | set op => exact (op.commits now key).mono fun p e => Touches.owned
  | list op => exact (op.commits now key).mono fun p e => MayRemove.owned
  | sortedSet op => exact (op.commits now key).mono fun p e => MayRemove.owned
  | other m => exact commits_owned (m.writes now key)
  | del => exact commits_void (commits_del key)
  | delString => exact (commits_delString key).mono fun p e => MayRemove.owned
  | expire seconds => exact commits_void (commits_expire key seconds)
  | expireAt timestamp => exact commits_void (commits_expireAt key timestamp)
  | pExpire milliseconds => exact commits_void (commits_pExpire key milliseconds)
  | pExpireAt timestampMillis => exact commits_void (commits_pExpireAt key timestampMillis)
  | persist => exact commits_void (commits_persist key)

theorem Read.reads (c : Codec) (now : Nat) (key : Bytes) (r : Read) :
    Reads (Owns key) (r.answer c now key) := by
  have ret : ∀ {α : Type} {m : View Err α} {f : α → Answer}, Reads (Owns key) m →
      Reads (Owns key) (do return f (← m)) := fun h => reads_bind h fun _ => reads_pure
  cases r with
  | type => exact ret (reads_keyTypeName key)
  | exist => exact ret (reads_keyExists key)
  | ttl => exact ret (reads_ttl now key)
  | get => exact ret (Strings.views_get key).reads
  | hGet field => exact ret (Hashes.views_hGet key field).reads
  | hGetAll => exact ret (Hashes.views_hGetAll key).reads
  | hLen => exact ret (Hashes.views_hLen key).reads
  | sMembers => exact ret (Sets.views_sMembers key).reads
  | sIsMember member => exact ret (Sets.views_sIsMember key member).reads
  | sCard => exact ret (Sets.views_sCard key).reads
  | lRange start stop => exact ret (Lists.views_lRange key start stop).reads
  | lLen => exact ret (Lists.views_lLen key).reads
  | zRange start stop => exact ret (SortedSets.views_zRange key start stop).reads
  | zScore member => exact ret (SortedSets.views_zScore key member).reads
  | zCard => exact ret (SortedSets.views_zCard key).reads

end BoltDB.Store
