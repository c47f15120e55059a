import BoltDB.Lib.CachedView
import BoltDB.Lib.Ranking
import BoltDB.Store.Rename
import BoltDB.Store.ZSetRuns

/-!
# The rank cache

`zset_rank_cache.go` and `zrank.go`. The ranks of the members of a sorted set are kept in memory,
and the cache of a set is marked dirty by the methods that write the set. All methods mark after
their commit, but `RENAME` does so inside its transaction, and only if it moves a sorted set.

* `position` — the position of a member by the data records.
* `getElem?_buildZSetRankCache` — a cache that is built holds the positions.
* `Call.script` — the commits and the marks of a method, in their order.
* `rank_cache_coherent` — a rank that is asked for after a write has returned is the position in the
  records that write left, or in later ones.
-/

namespace BoltDB.Store.RankCache

open Bytes KeyValue SortedSets CachedView List Std.ExtTreeMap Option

/-! ## Positions -/

/-- The order of `buildZSetRankCache`. -/
def precedes (a b : Bytes × F64) : Bool :=
  if a.2.eq b.2 then compare a.1 b.1 = .lt else a.2.lt b.2

/-- The score in the data record of a member. -/
def scoreOf (key member : Bytes) (db : Db) : F64 :=
  ((oldOf key member db).map Prod.fst).getD F64.zero

/-- How many members come before a member, by their data records. -/
def position (key member : Bytes) (db : Db) : Option Nat :=
  if member ∈ members key db then
    some ((members key db).filter fun m =>
      precedes (m, scoreOf key m db) (member, scoreOf key member db)).card
  else none

abbrev Ranks := Std.ExtTreeMap Bytes Nat compare

/-- What the index records name. -/
def indexEntries (key : Bytes) (db : Db) : List (Bytes × F64) :=
  (scan (indexPrefix key) db).filterMap (parseZSetIndexKey key ·.1)

def buildZSetRankCache (key : Bytes) (now : Nat) (db : Db) : Ranks :=
  Ranking.table precedes Prod.fst (indexEntries key (visible (unix now) db))

/-- The records of a sorted set are in step, do not expire and hold numbers. -/
structure InStep (key : Bytes) (db : Db) : Prop where
  matched : Matched key db
  lasting : ∀ p e, dataPrefix key <+: p ∨ indexPrefix key <+: p → db[p]? = some e → e.expiresAt = 0
  numbers : ∀ m ∈ members key db, (scoreOf key m db).isNaN = false

theorem precedes_eq {a b : Bytes × F64} (ha : a.2.isNaN = false) (hb : b.2.isNaN = false) :
    precedes a b = true ↔ a.2.signedScaled < b.2.signedScaled ∨
      a.2.signedScaled = b.2.signedScaled ∧ compare a.1 b.1 = .lt := by
  rw [precedes, F64.eq, F64.lt, ha, hb]
  by_cases heq : a.2.signedScaled = b.2.signedScaled
  · simp [heq]
  · simp [heq]

/-- Members with distinct names and scores that are numbers are in order. -/
theorem ordersOn_precedes {l : List (Bytes × F64)} (hd : Distinct l)
    (hn : ∀ e ∈ l, e.2.isNaN = false) : Ranking.OrdersOn precedes l where
  irrefl a ha := by
    rw [← Bool.not_eq_true, precedes_eq (hn a ha) (hn a ha)]
    simp
  trans a ha b hb c hc hab hbc := by
    rw [precedes_eq (hn a ha) (hn b hb)] at hab
    rw [precedes_eq (hn b hb) (hn c hc)] at hbc
    rw [precedes_eq (hn a ha) (hn c hc)]
    rcases hab with hab | ⟨hab, hlt⟩ <;> rcases hbc with hbc | ⟨hbc, hlt'⟩
    · exact .inl (hab.trans hbc)
    · exact .inl (hbc ▸ hab)
    · exact .inl (hab ▸ hbc)
    · exact .inr ⟨hab.trans hbc, Std.TransCmp.lt_trans hlt hlt'⟩
  total a ha b hb hne := by
    rw [precedes_eq (hn a ha) (hn b hb), precedes_eq (hn b hb) (hn a ha)]
    rcases lt_trichotomy a.2.signedScaled b.2.signedScaled with hlt | heq | hlt
    · exact .inl (.inl hlt)
    · cases hc : compare a.1 b.1 with
      | lt => exact .inl (.inr ⟨heq, rfl⟩)
      | gt => exact .inr (.inr ⟨heq.symm, Std.OrientedCmp.lt_of_gt hc⟩)
      | eq =>
        have hname := Std.LawfulEqCmp.eq_of_compare hc
        exact absurd (inj_on_of_nodup_map hd ha hb hname) hne
    · exact .inr (.inl hlt)

/-- The index records name the members, each with its score. -/
theorem mem_indexEntries {key : Bytes} {db : Db} (h : Matched key db) {e : Bytes × F64} :
    e ∈ indexEntries key db ↔ e.1 ∈ members key db ∧ e.2 = scoreOf key e.1 db := by
  have hscore : ∀ m s v, dataOf key m db = some (encodeDataValue s v) →
      scoreOf key m db = decodeScore (encodeScore s) := fun m s v hdata => by
    rw [scoreOf, oldOf, hdata]
    rfl
  rw [indexEntries, List.mem_filterMap]
  constructor
  · rintro ⟨f, hf, hparse⟩
    obtain ⟨hget, hpre⟩ := mem_scan.mp hf
    have hin : f.1 ∈ db := by
      rw [mem_iff_isSome_getElem?, hget]
      rfl
    obtain ⟨m, s, v, hp⟩ := h.names f.1 hpre hin
    have hdata := (h.index m s v).mp (hp ▸ hin)
    rw [hp, parseZSetIndexKey_sortedSetKeyIndex] at hparse
    cases hparse
    exact ⟨mem_members.mpr (by rw [hdata]; rfl), (hscore m s v hdata).symm⟩
  · rintro ⟨hm, hs⟩
    obtain ⟨b, hb⟩ := isSome_iff_exists.mp (mem_members.mp hm)
    obtain ⟨s, v, rfl⟩ := h.data e.1 b hb
    have hin := (h.index e.1 s v).mpr hb
    obtain ⟨x, hx⟩ := isSome_iff_exists.mp (mem_iff_isSome_getElem?.mp hin)
    refine ⟨(sortedSetKeyIndex key s e.1 v, x),
      mem_scan.mpr ⟨hx, index_hasIndexPrefix key e.1 s v⟩, ?_⟩
    rw [parseZSetIndexKey_sortedSetKeyIndex, ← hscore e.1 s v hb, ← hs]

section Built

variable {key : Bytes} {db : Db} (h : InStep key db)

include h

theorem InStep.visible_eq (now : Nat) {p : Bytes}
    (hp : dataPrefix key <+: p ∨ indexPrefix key <+: p) :
    (visible (unix now) db)[p]? = db[p]? := by
  rw [getElem?_visible]
  cases hget : db[p]? with
  | none => rfl
  | some e => rw [filter_some, if_pos (by simp [Entry.live, h.lasting p e hp hget])]

theorem InStep.indexEntries_visible (now : Nat) :
    indexEntries key (visible (unix now) db) = indexEntries key db := by
  rw [indexEntries, scan_congr fun p hp => h.visible_eq now (.inr hp), indexEntries]

/-- A cache that is built from records in step holds the positions of the members. -/
theorem InStep.getElem?_buildZSetRankCache (now : Nat) (member : Bytes) :
    (buildZSetRankCache key now db)[member]? = position key member db := by
  have hd : Distinct (indexEntries key db) := h.matched.distinct_scan
  rw [buildZSetRankCache, h.indexEntries_visible, position]
  split
  case isTrue hm =>
    have hin : (member, scoreOf key member db) ∈ indexEntries key db :=
      (mem_indexEntries h.matched).mpr ⟨hm, rfl⟩
    have horders := ordersOn_precedes hd fun e he => by
      obtain ⟨hm, hs⟩ := (mem_indexEntries h.matched).mp he
      rw [hs, h.numbers e.1 hm]
    rw [Ranking.getElem?_table horders hd hin, Option.some.injEq, countP_eq_length_filter]
    have hnodup : ((indexEntries key db).filter
        (precedes · (member, scoreOf key member db))).map Prod.fst |>.Nodup :=
      hd.sublist filter_sublist
    rw [← length_map Prod.fst, ← toFinset_card_of_nodup hnodup]
    congr 1
    ext m
    simp only [List.mem_toFinset, List.mem_map, List.mem_filter, Finset.mem_filter]
    constructor
    · rintro ⟨e, ⟨he, hlt⟩, rfl⟩
      obtain ⟨hm, hs⟩ := (mem_indexEntries h.matched).mp he
      exact ⟨hm, by rwa [← hs]⟩
    · rintro ⟨hm, hlt⟩
      exact ⟨(m, scoreOf key m db), ⟨(mem_indexEntries h.matched).mpr ⟨hm, rfl⟩, hlt⟩, rfl⟩
  case isFalse hm =>
    refine Ranking.getElem?_table_of_notMem fun hin => ?_
    obtain ⟨e, he, rfl⟩ := List.mem_map.mp hin
    exact hm ((mem_indexEntries h.matched).mp he).1

end Built

/-! ## Reads -/

/-- Names of keys without `:`, so that no two of them own a record together. -/
abbrev Name := {key : Bytes // 58 ∉ key}

instance : Inhabited Name := ⟨⟨[], not_mem_nil⟩⟩

abbrev RankQuery := Query Name Nat Db Ranks (Except Err Int)

def getZSetRank (key : Name) (member : Bytes) (next : Int → RankQuery) : RankQuery :=
  .cached key fun ranks => next (match ranks[member]? with | some r => r | none => -1)

/-- `ZRank`, with what follows: a member without a rank is looked up among the data records, and if
it is there, once more in the cache. -/
def zRankThen (key : Name) (member : Bytes) (next : Int → RankQuery) : RankQuery :=
  getZSetRank key member fun rank =>
    if 0 ≤ rank then next rank
    else .view fun now db =>
      match (visible (unix now) db)[sortedSetKeyMember key member]? with
      | none => next (-1)
      | some _ => getZSetRank key member next

def zRank (key : Name) (member : Bytes) : RankQuery :=
  zRankThen key member fun rank => .answer (.ok rank)

def zRevRank (key : Name) (member : Bytes) : RankQuery := zRankThen key member fun forwardRank =>
    if forwardRank = -1 then .answer (.ok (-1))
    else .view fun now db => .answer <|
      match getMeta key (visible (unix now) db) with
      | .error e => .error e
      | .ok m => .ok (((m.map Meta.card).getD 0).toInt - 1 - forwardRank)

inductive RankRead
  | zRank (key : Name) (member : Bytes)
  | zRevRank (key : Name) (member : Bytes)

namespace RankRead

def key : RankRead → Name
  | zRank key _ | zRevRank key _ => key

def query : RankRead → RankQuery
  | zRank key member => RankCache.zRank key member
  | zRevRank key member => RankCache.zRevRank key member

/-- What the records say. -/
def answerIn (db : Db) : RankRead → Int
  | zRank key member =>
    match position key member db with
    | some n => n
    | none => -1
  | zRevRank key member =>
    match position key member db with
    | some n => (members key db).card - 1 - n
    | none => -1

end RankRead

/-! ## Writes -/

abbrev CacheWrite := Write Name Nat Db

/-- The methods that write sorted sets. `RESTORE`, `ZMPOP`, `ZRANGESTORE` and the commands of a
replica are made of them. -/
inductive Call
  | one (key : Name) (op : SortedSets.Op)
  | zUnionStore (destination : Name) (keys : List Bytes) (weights : List F64) (aggregate : Bytes)
  | zInterStore (destination : Name) (keys : List Bytes) (weights : List F64) (aggregate : Bytes)
  | zDiffStore (destination : Name) (keys : List Bytes)
  | zSetDel (key : Name)
  | del (key : Name)
  | rename (key newKey : Name)
  | flushDB

/-- `markZSetDirty` for some keys. -/
def markAll (keys : List Name) (next : CacheWrite) : CacheWrite := keys.foldr .mark next

/-- A transaction, and the keys that are marked after it. A method that has nothing to write is one
with a transaction that does nothing. -/
def commitThen (run : Nat → Run Err Unit) (marks : Nat → Db → List Name) : CacheWrite :=
  .commit (fun now db => (run now db).2) fun now db => markAll (marks now db) .done

/-- `ZREM` marks unless it fails; a pop of no members returns at once. -/
def opMarks (now : Nat) (key : Name) (db : Db) : SortedSets.Op → List Name
  | .zRem member => if (zRem now key member db).1.isOk then [key] else []
  | .zPop _ count => if count ≤ 0 then [] else [key]
  | _ => [key]

def typeAt (now : Nat) (key : Bytes) (db : Db) : Option Bytes :=
  (visible (unix now) db)[typeOfKeyGet key]?.map (·.value)

/-- The types whose keys have the records of a sorted set. -/
def hasRanks (name : Option Bytes) : Bool :=
  name = some KeyType.sortedSet.name || name = some KeyType.geo.name

def delMarks (now : Nat) (key : Name) (db : Db) : List Name :=
  if hasRanks (typeAt now key db) then [key] else []

/-- The attempts of `RENAME`. The keys are marked at the end of the transaction function; the commit
comes later, and fails if the type that was read has changed. -/
def renameAttempts (key newKey : Name) : Nat → CacheWrite
  | 0 => .done
  | n + 1 => .read fun now db =>
    let t := typeAt now key db
    markAll (if hasRanks t then [key, newKey] else []) <|
      .commit (fun now' db' =>
        if typeAt now' key db' = t then (Store.rename now' key newKey db').2 else db')
      fun now' db' => if typeAt now' key db' = t then .done else renameAttempts key newKey n

/-- The batches of `ClearAllData`, and then `ClearCaches`. -/
def flushBatches : List (List Bytes) → CacheWrite
  | [] => .clear .done
  | names :: rest =>
    .commit (fun now db => (update now (names.forM Txn.delete : Txn Err Unit) db).2)
      fun _ _ => flushBatches rest

/-- `isSystemKey`. -/
def isSystemKey (p : Bytes) : Bool :=
  [ascii "__REPL_META__:", ascii "cluster:config"].any (·.isPrefixOf p)

namespace Call

def script : Call → CacheWrite
  | one key op => commitThen (fun now => op.run now key) fun now db => opMarks now key db op
  | zUnionStore destination keys weights aggregate =>
    commitThen (fun now => void (SortedSets.zUnionStore now destination keys weights aggregate))
      fun _ _ => [destination]
  | zInterStore destination keys weights aggregate =>
    commitThen (fun now => void (SortedSets.zInterStore now destination keys weights aggregate))
      fun _ _ => [destination]
  | zDiffStore destination keys =>
    commitThen (fun now => void (SortedSets.zDiffStore now destination keys))
      fun _ _ => [destination]
  | zSetDel key => commitThen (fun now => update now (SortedSets.zSetDel key)) fun _ _ => []
  | del key => commitThen (fun now => void (Store.del now key)) fun now db => delMarks now key db
  | rename key newKey => if key = newKey then .done else renameAttempts key newKey 30
  | flushDB => .read fun now db =>
    flushBatches (((visible (unix now) db).keys.filter fun p => !isSystemKey p).toChunks 500)

end Call

def app : Application Name Nat Db Ranks (Except Err Int) Call RankRead where
  script := Call.script
  query := RankRead.query
  build key now db := buildZSetRankCache key now db
  blank := ∅

/-! ## What the methods change -/

/-- The index records of a key that are live at a time are the same in two stores. -/
def SameIndex (key : Name) (now : Nat) (db db' : Db) : Prop :=
  ∀ p, indexPrefix key <+: p → (visible (unix now) db')[p]? = (visible (unix now) db)[p]?

theorem owed_markAll {keys : List Name} {key : Name} (h : key ∈ keys) (next : CacheWrite) :
    (markAll keys next).Owed key := by
  induction keys with
  | nil => cases h
  | cons k keys ih =>
    rcases mem_cons.mp h with rfl | h
    · exact .inl rfl
    · exact .inr (ih h)

theorem covered_markAll (keys : List Name) {next : CacheWrite} (h : next.Covered SameIndex) :
    (markAll keys next).Covered SameIndex := by
  induction keys with
  | nil => exact h
  | cons k keys ih => exact ih

theorem covered_commitThen {run : Nat → Run Err Unit} {marks : Nat → Db → List Name}
    (h : ∀ now db key, SameIndex key now db (run now db).2 ∨ key ∈ marks now db) :
    (commitThen run marks).Covered SameIndex := by
  refine ⟨fun now db key => (h now db key).imp id fun hk => owed_markAll hk _, fun now db => ?_⟩
  exact covered_markAll _ trivial

theorem isRecord_index {key p : Bytes} (h : indexPrefix key <+: p) : IsRecord .sortedSet key p :=
  isRecord_of_indexPrefix h

section Footprints

variable {α : Type} {now : Nat} {N : Bytes → Prop}

theorem commits_names {m : Txn Err α} (h : Writes (fun p _ => N p) m) :
    Commits (unix now) (fun p _ => N p) (update now m) :=
  commits_update h fun _ _ hp _ => hp

theorem sameIndex_of_commits {m : Run Err α} {key : Name} {db : Db}
    (hm : Commits (unix now) (fun p _ => N p) m) (hN : ∀ p, indexPrefix key <+: p → ¬ N p) :
    SameIndex key now db (m db).2 :=
  fun p hp => (hm db p).resolve_right (hN p hp)

theorem sameIndex_refl (key : Name) (now : Nat) (db : Db) : SameIndex key now db db :=
  fun _ _ => rfl

/-- No two names own a record together. -/
theorem not_owns_index {key key' : Name} (hne : key' ≠ key) {p : Bytes}
    (hp : indexPrefix key' <+: p) : ¬ Owns key p := by
  intro ho
  rcases ho.key_cases (isRecord_index hp).owns with heq | hover
  · exact hne (Subtype.ext heq.symm)
  · exact not_overlap_of_notMem key.2 key'.2 hover

/-- A method that writes records of one key, with the key marked or its index records kept. -/
theorem covered_owned {run : Nat → Run Err Unit} {marks : Nat → Db → List Name} {key : Name}
    (hrun : ∀ now, Commits (unix now) (fun p _ => Owns key p) (run now))
    (hself : ∀ now db, SameIndex key now db (run now db).2 ∨ key ∈ marks now db) :
    (commitThen run marks).Covered SameIndex := by
  refine covered_commitThen fun now db key' => ?_
  by_cases hk : key' = key
  · exact hk ▸ hself now db
  · exact .inl (sameIndex_of_commits (hrun now) fun p hp => not_owns_index hk hp)

end Footprints

theorem covered_one (key : Name) (op : SortedSets.Op) : (Call.one key op).script.Covered SameIndex := by
  refine covered_owned (fun now => (op.commits now key).mono fun p e h => h.owned.owns)
    fun now db => ?_
  cases op with
  | zRem member =>
    rw [opMarks]
    split
    case isTrue => exact .inr mem_cons_self
    case isFalse hok =>
      -- a transaction that fails leaves the store as it was
      refine .inl ?_
      show SameIndex key now db (void (zRem now key member) db).2
      rw [void_snd]
      cases hres : zRemMember key member (visible (unix now) db) with
      | error e =>
        rw [zRem, update, Run.update_of_error hres]
        exact sameIndex_refl key now db
      | ok r =>
        refine absurd ?_ hok
        rw [zRem, update, Run.update, hres]
        rfl
  | zPop max count =>
    rw [opMarks]
    split
    case isTrue hcount =>
      refine .inl ?_
      show SameIndex key now db (void (zPop max now key count) db).2
      rw [void_snd, zPop, if_pos hcount]
      exact sameIndex_refl key now db
    case isFalse => exact .inr mem_cons_self
  | _ => exact .inr mem_cons_self

/-! ### Deleting -/

theorem writes_deleteLeading (pre : Bytes) : Writes (fun p _ => pre <+: p) (deleteLeading pre) := by
  refine writes_read fun es => writes_forM fun e he => writes_delete ?_
  exact isPrefixOf_iff_prefix.mp
    (mem_takeWhile_imp (p := fun e : Bytes × Entry => pre.isPrefixOf e.1) he)

/-- What `zSetDelInTxn` may name: the meta and type records, and what starts with the name of the
set. -/
def ZSetDelNames (key : Name) (p : Bytes) : Prop :=
  key.1 ++ ascii ":" <+: p ∨ p = sortedSetKeyMeta key ∨ p = typeOfKeyGet key

theorem writes_zSetDel (key : Name) :
    Writes (fun p _ => ZSetDelNames key p) (SortedSets.zSetDel key) := by
  have hlead : ∀ pre, key.1 ++ ascii ":" <+: pre →
      Writes (fun p _ => ZSetDelNames key p) (deleteLeading pre) := fun pre hpre =>
    (writes_deleteLeading pre).mono fun p _ hp => .inl (hpre.trans hp)
  have hdata : key.1 ++ ascii ":" <+: key.1 ++ ascii ":data:" :=
    ⟨"data:", by rw [append_assoc]; rfl⟩
  have hindex : key.1 ++ ascii ":" <+: key.1 ++ ascii ":index:" :=
    ⟨"index:", by rw [append_assoc]; rfl⟩
  refine writes_bind (hlead _ hdata) fun _ => writes_bind (hlead _ hindex) fun _ => ?_
  exact writes_bind (writes_delete (.inr (.inl rfl))) fun _ => writes_delete (.inr (.inr rfl))

/-- Records of a sorted set start with `zset:`. -/
theorem not_zSetDelNames_index {key key' : Name} (hkey : key.1 ≠ "zset") {p : Bytes}
    (hp : indexPrefix key' <+: p) : ¬ ZSetDelNames key p := by
  rintro (hpre | rfl | rfl)
  · obtain ⟨x, rfl⟩ := hp
    obtain ⟨y, hy⟩ := hpre
    have hsplit : "zset" ++ ":" ++ (key'.1 ++ ":" ++ "index:" ++ x) = key.1 ++ ":" ++ y := by
      rw [hy]
      simp [indexPrefix, sortedSetKey, recordPrefix, KeyType.tag, ascii]
    rcases colon_append_cases hsplit with heq | hext | hext
    · exact hkey heq.symm
    · exact not_extends_of_notMem key.2 hext
    · exact not_extends_of_notMem (by decide) hext
  · by_cases hk : key' = key
    · subst hk
      exact not_indexPrefix_meta hp
    · exact not_owns_index hk hp (isRecord_sortedSetKeyMeta key.1).owns
  · exact not_isRecord_typeOfKeyGet _ _ _ (isRecord_index hp)

theorem covered_zSetDel {key : Name} (hkey : key.1 ≠ "zset") :
    (Call.zSetDel key).script.Covered SameIndex := by
  refine covered_commitThen fun now db key' => .inl ?_
  exact sameIndex_of_commits (commits_names (writes_zSetDel key))
    fun p hp => not_zSetDelNames_index hkey hp

/-- What a `Z*STORE` may name. -/
def StoreNames (destination : Name) (p : Bytes) : Prop :=
  ZSetDelNames destination p ∨ Owns destination p

theorem writes_zStoreReplace (destination : Name) (ms : List (Bytes × F64)) :
    Writes (fun p _ => StoreNames destination p) (zStoreReplace destination ms) := by
  refine writes_bind ((writes_zSetDel destination).mono fun p _ hp => .inl hp) fun _ => ?_
  refine writes_map ((writes_zAddMembers ms).mono fun p e hp => .inr ?_) _
  exact hp.zMayRemove.mayRemove.owned.owns

theorem covered_store {α : Type} {destination : Name} (hdest : destination.1 ≠ "zset")
    {m : Txn Err α} (hm : Writes (fun p _ => StoreNames destination p) m) :
    (commitThen (fun now => void (update now m)) fun _ _ => [destination]).Covered SameIndex := by
  refine covered_commitThen fun now db key => ?_
  by_cases hk : key = destination
  · exact .inr (hk ▸ mem_cons_self)
  · refine .inl (sameIndex_of_commits (commits_void (commits_names hm)) fun p hp hN => ?_)
    exact hN.elim (not_zSetDelNames_index hdest hp) (not_owns_index hk hp)

/-- The data of a key without ranks is not that of a sorted set. -/
theorem writes_deleteData_noRanks {key name : Bytes} (hname : hasRanks (some name) = false) :
    Writes (fun p _ => ∀ key', ¬ IsRecord .sortedSet key' p) (deleteData key name) := by
  have hother : ∀ t : KeyType, t ≠ .sortedSet →
      Writes (fun p _ => ∀ key', ¬ IsRecord .sortedSet key' p) (deleteRecords t key) := fun t ht =>
    writes_deleteRecords fun p hp key' hp' => ht (hp.type_eq hp')
  rw [deleteData]
  cases ht : KeyType.ofName name with
  | none => exact writes_pure
  | some t =>
    obtain rfl := KeyType.eq_name_of_ofName ht
    cases t with
    | sortedSet | geo => cases hname
    | _ => exact hother _ (by decide)

/-- `DEL` changes the index records of a key only if it has the type of a sorted set or of a geo
set, and then it marks the key. -/
theorem covered_del (key : Name) : (Call.del key).script.Covered SameIndex := by
  refine covered_owned (fun now => commits_void ((commits_del key.1).mono fun p e h => h.owns))
    fun now db => ?_
  rw [delMarks]
  split
  case isTrue => exact .inr mem_cons_self
  case isFalse htype =>
    refine .inl ?_
    show SameIndex key now db (void (Store.del now key) db).2
    rw [void_snd, Store.del, update, Run.update]
    have hread : (Txn.get (typeOfKeyGet key.1) : Txn Err _) (visible (unix now) db) =
      .ok ((visible (unix now) db)[typeOfKeyGet key.1]?, visible (unix now) db) := rfl
    rw [typeAt] at htype
    rw [delTxn, Txn.bind_apply, hread]
    cases hget : (visible (unix now) db)[typeOfKeyGet key.1]? with
    | none =>
      intro p _
      show (visible (unix now) (visible (unix now) db))[p]? = _
      rw [visible_visible]
    | some e =>
      rw [hget, map_some, Bool.not_eq_true] at htype
      refine sameIndex_of_commits (N := fun p => ∀ key', ¬ IsRecord .sortedSet key' p)
        (m := update now (do
          deleteData key.1 e.value
          Txn.delete (typeOfKeyGet key.1)
          return 1)) (commits_names ?_) (fun p hp hN => hN key.1 (isRecord_index hp))
      refine writes_bind (writes_deleteData_noRanks htype) fun _ => ?_
      exact writes_bind (writes_delete fun key' => not_isRecord_typeOfKeyGet _ _ _)
        fun _ => writes_pure

theorem covered_flushBatches (batches : List (List Bytes)) :
    (flushBatches batches).Covered SameIndex ∧ ∀ key, (flushBatches batches).Owed key := by
  induction batches with
  | nil => exact ⟨trivial, fun _ => trivial⟩
  | cons names rest ih =>
    exact ⟨⟨fun _ _ key => .inr (ih.2 key), fun _ _ => ih.1⟩, fun key _ _ => ih.2 key⟩

theorem covered_flushDB : Call.flushDB.script.Covered SameIndex :=
  fun _ _ => (covered_flushBatches _).1

/-! ## Coherence -/

/-- The meta record counts the members. -/
def Counted (key : Name) (now : Nat) (db : Db) : Prop :=
  ∃ m, getMeta key (visible (unix now) db) = .ok (some m) ∧
    m.card = Int64.ofNat (members key db).card ∧ (members key db).card < 2 ^ 63

/-- What `ZREVRANK` needs when it counts the members after it has found a rank: the data records are
those the rank is from, and they are counted. -/
def CountsSame (q : RankRead) (used : List (Snapshot Nat Db)) (u : Snapshot Nat Db) : Prop :=
  match q with
  | .zRank _ _ => True
  | .zRevRank key member => ∀ v, used.head? = some v → (position key member v.data).isSome →
    (∀ p, dataPrefix key.1 <+: p → u.data[p]? = v.data[p]?) ∧ Counted key u.time u.data

def IsRename : Call → Prop
  | .rename _ _ => True
  | _ => False

variable {ι : Type}

abbrev RankSystem (ι : Type) := System ι Name Nat Db Ranks (Except Err Int) Call RankRead

/-- What keeps the cache coherent. A `Z*STORE` does not go to a key called `zset`, whose name is the
start of the names of the records of all sorted sets; `RENAME` does not touch index records; a cache
is built from records in step; and the members are counted as they were ranked. -/
def Condition (s : RankSystem ι) (l : ι × Act Nat Call RankRead) : Prop :=
  match l.2, s.procs l.1 with
  | .write (.zUnionStore destination _ _ _), _ | .write (.zInterStore destination _ _ _), _
  | .write (.zDiffStore destination _), _ | .write (.zSetDel destination), _ =>
    destination.1 ≠ "zset"
  | .go now, .writing (.rename _ _) (.commit effect _) _ =>
    ∀ key, SameIndex key now s.data (effect now s.data)
  | .go now, .asking r =>
    match r.query, r.stage with
    | .cached key _, .building _ => InStep key s.data
    | .view _, _ => CountsSame r.tag r.used (s.snapshot now)
    | _, _ => True
  | _, _ => True

theorem Condition.allowed {s : RankSystem ι} {l : ι × Act Nat Call RankRead} (h : Condition s l) :
    Allowed app SameIndex IsRename (fun key _ db => InStep key db) CountsSame s l := by
  obtain ⟨i, a⟩ := l
  cases a with
  | write c =>
    cases c with
    | one key op => exact .inr (covered_one key op)
    | del key => exact .inr (covered_del key)
    | flushDB => exact .inr covered_flushDB
    | rename key newKey => exact .inl trivial
    | zSetDel key => exact .inr (covered_zSetDel h)
    | zUnionStore destination keys weights aggregate =>
      exact .inr (covered_store h (writes_read fun _ => writes_zStoreReplace _ _))
    | zInterStore destination keys weights aggregate =>
      exact .inr (covered_store h (writes_read fun _ => writes_zStoreReplace _ _))
    | zDiffStore destination keys =>
      exact .inr (covered_store h (writes_read fun _ => writes_zStoreReplace _ _))
  | ask q => trivial
  | go now =>
    rw [Condition] at h
    rw [Allowed]
    dsimp only at h ⊢
    cases hproc : s.procs i with
    | writing c rest found =>
      rw [hproc] at h
      cases rest with
      | commit effect next =>
        intro hex key
        cases c with
        | rename key' newKey => exact .inl (h key)
        | _ => cases hex
      | _ => trivial
    | asking r =>
      rw [hproc] at h
      dsimp only at h ⊢
      cases hq : r.query with
      | answer a => trivial
      | view next =>
        rw [hq] at h
        exact h
      | cached key next =>
        rw [hq] at h
        cases hs : r.stage with
        | building p =>
          rw [hs] at h
          exact h
        | _ => trivial
    | _ => trivial

section Reading

variable {P : Name → Snapshot Nat Db → Prop}
  {V : List (Snapshot Nat Db) → Snapshot Nat Db → Prop} {us us' : List (Snapshot Nat Db)}
  {key : Name} {member : Bytes} {next : Int → RankQuery} {a : Except Err Int}

/-- The rank in the cache built from a snapshot. -/
def rankIn (key : Name) (member : Bytes) (u : Snapshot Nat Db) : Int :=
  match (buildZSetRankCache key u.time u.data)[member]? with
  | some r => r
  | none => -1

theorem reading_getZSetRank (h : Reading app P V us (getZSetRank key member next) us' (.answer a)) :
    ∃ u, P key u ∧ Reading app P V (u :: us) (next (rankIn key member u)) us' (.answer a) := by
  cases h with
  | cached hu h => exact ⟨_, hu, h⟩

/-- `ZRank` goes on with the rank in a cache it may use. -/
theorem reading_zRankThen (h : Reading app P V us (zRankThen key member next) us' (.answer a)) :
    ∃ us₁ u, P key u ∧ (0 ≤ rankIn key member u → us₁.head? = some u) ∧
      Reading app P V us₁ (next (rankIn key member u)) us' (.answer a) := by
  obtain ⟨u, hu, h⟩ := reading_getZSetRank h
  split at h
  case isTrue => exact ⟨u :: us, u, hu, fun _ => rfl, h⟩
  case isFalse hneg =>
    cases h with
    | @view _ _ _ _ v _ h =>
      dsimp only at h
      split at h
      · -- no data record, so that the first answer stands
        have hrank : rankIn key member u = -1 := by
          rw [rankIn] at hneg ⊢
          split at hneg
          · omega
          · rfl
        rw [← hrank] at h
        exact ⟨_, u, hu, fun hpos => absurd hpos hneg, h⟩
      · obtain ⟨w, hw, h⟩ := reading_getZSetRank h
        exact ⟨_, w, hw, fun _ => rfl, h⟩

end Reading

theorem rankIn_eq {key : Name} {member : Bytes} {u : Snapshot Nat Db} (h : InStep key u.data) :
    rankIn key member u = match position key member u.data with | some n => n | none => -1 := by
  rw [rankIn, h.getElem?_buildZSetRankCache]

section Answers

variable {P : Name → Snapshot Nat Db → Prop} (hP : ∀ key u, P key u → InStep key u.data)
  {us : List (Snapshot Nat Db)} {a : Except Err Int}

include hP

/-- The answer to a query is what the records of a snapshot say that it may use. -/
theorem reading_answer {q : RankRead}
    (h : Reading app P (CountsSame q) [] q.query us (.answer a)) :
    ∃ u, P q.key u ∧ a = .ok (q.answerIn u.data) := by
  cases q with
  | zRank key member =>
    rw [RankRead.query, zRank] at h
    obtain ⟨us₁, u, hu, -, h⟩ := reading_zRankThen h
    rw [rankIn_eq (hP key u hu)] at h
    cases h
    exact ⟨u, hu, rfl⟩
  | zRevRank key member =>
    rw [RankRead.query, zRevRank] at h
    obtain ⟨us₁, u, hu, hhead, h⟩ := reading_zRankThen h
    refine ⟨u, hu, ?_⟩
    rw [rankIn_eq (hP key u hu)] at h hhead
    rw [RankRead.answerIn]
    cases hpos : position key member u.data with
    | none =>
      rw [hpos] at h
      cases h
      rfl
    | some n =>
      rw [hpos] at h hhead
      have hne : ¬ (n : Int) = -1 := by omega
      dsimp only at h
      rw [if_neg hne] at h
      cases h with
      | @view _ _ _ _ v hv h =>
        obtain ⟨hsame, m, hmeta, hcard, hsmall⟩ :=
          hv u (hhead (Int.natCast_nonneg n)) (by rw [hpos]; rfl)
        dsimp only at h
        rw [hmeta] at h
        cases h
        show Except.ok (m.card.toInt - 1 - n) = Except.ok (_ - 1 - (n : Int))
        rw [hcard, members_congr hsame, Int64.toInt_ofNat_of_lt (members_congr hsame ▸ hsmall)]

end Answers

/-- The `n`-th commit of a run changed the index records of a key. -/
def ChangedIndex (t : RankSystem ι) (key : Name) (n : Nat) : Prop :=
  ¬ SameIndex key (t.time n) (t.hist (n - 1)) (t.hist n)

section Run

def nameZ : Name := ⟨"z", by decide⟩

/-- `ZADD z 1 m` on an empty store. -/
def oneMember : Db := (SortedSets.Op.run 0 "z" (.zAdd [("m", F64.one)]) ∅).2

theorem inStep_oneMember : InStep nameZ oneMember := by
  have hinv : Inv oneMember := Inv.op inv_empty (small_of_size (by decide +kernel)) (by decide)
    (by decide : List.Nodup _)
  refine ⟨(hinv.sets "z" (by decide)).toMatched, fun p e _ he => (hinv.names p e he).1, ?_⟩
  have hmembers : members (ascii "z") oneMember = {ascii "m"} := by decide +kernel
  intro m hm
  have hm : m ∈ members "z" oneMember := hm
  rw [hmembers, Finset.mem_singleton] at hm
  subst hm
  decide +kernel

def times (n : Nat) (i : Nat) : List (Nat × Act Nat Call RankRead) := List.replicate n (i, .go 0)

/-- Process 0 adds the member; process 1 asks for its rank. -/
def addOne : List (Nat × Act Nat Call RankRead) :=
  (0, .write (.one nameZ (.zAdd [("m", F64.one)]))) :: times 3 0

/-- A condition on the steps of this run that can be evaluated. -/
def AtOneMember (s : RankSystem Nat) (l : Nat × Act Nat Call RankRead) : Prop :=
  match l.2, s.procs l.1 with
  | .write (.one _ _), _ => True
  | .go _, .writing (.one _ _) _ _ => True
  | .go _, .asking r =>
    match r.query, r.stage with
    | .cached key _, .building _ => key = nameZ ∧ s.data.toList = oneMember.toList
    | .cached _ _, _ => True
    | _, _ => False
  | .ask _, _ => True
  | _, _ => False

instance (s : RankSystem Nat) (l : Nat × Act Nat Call RankRead) : Decidable (AtOneMember s l) := by
  unfold AtOneMember
  split <;> try infer_instance
  split <;> infer_instance

theorem AtOneMember.condition {s : RankSystem Nat} {l : Nat × Act Nat Call RankRead}
    (h : AtOneMember s l) : Condition s l := by
  obtain ⟨i, a⟩ := l
  cases a with
  | write c =>
    cases c with
    | one key op => trivial
    | _ => exact absurd h id
  | ask q => trivial
  | go now =>
    rw [AtOneMember] at h
    rw [Condition]
    dsimp only at h ⊢
    cases hproc : s.procs i with
    | writing c rest found =>
      rw [hproc] at h
      cases c with
      | one key op => trivial
      | _ => exact absurd h id
    | asking r =>
      rw [hproc] at h
      dsimp only at h ⊢
      cases hq : r.query with
      | answer a => trivial
      | view next =>
        rw [hq] at h
        exact absurd h id
      | cached key next =>
        rw [hq] at h
        cases hs : r.stage with
        | building p =>
          rw [hs] at h
          obtain ⟨rfl, hdata⟩ := h
          rw [ext_toList (List.Perm.of_eq hdata)]
          exact inStep_oneMember
        | _ => trivial
    | _ => trivial

/-- A query that starts after some steps gets an answer that no version of the records gives which
has all the writes on its key that had returned. -/
def Stale (db : Db) (ls ls' : List (Nat × Act Nat Call RankRead)) (i : Nat) (q : RankRead) : Prop :=
  ∃ (s t : RankSystem Nat) (a : Except Err Int),
    Transition.run (System.step app) (System.init app 0 0 db) ls = some s ∧
    Transition.run (System.step app) s ((i, .ask q) :: ls') = some t ∧ t.answer i = some a ∧
    ¬ ∃ v ≤ t.version, (∀ n, s.settled n = true → ChangedIndex t q.key n → n ≤ v) ∧
      a = .ok (q.answerIn (t.hist v))

/-- It is enough that the last commit has returned and changed an index record. -/
theorem stale_of_last {db : Db} {ls ls' : List (Nat × Act Nat Call RankRead)} {i n : Nat}
    {q : RankRead} {x : Int} (p : Bytes) (hp : indexPrefix q.key.1 <+: p)
    (h : (Transition.run (System.step app) (System.init app 0 0 db) ls).any (fun s =>
      s.settled n && (Transition.run (System.step app) s ((i, .ask q) :: ls')).any fun t =>
        decide (t.version = n ∧ t.answer i = some (.ok x) ∧ q.answerIn (t.hist n) ≠ x ∧
          (visible (unix (t.time n)) (t.hist n))[p]? ≠
            (visible (unix (t.time n)) (t.hist (n - 1)))[p]?)) = true) :
    Stale db ls ls' i q := by
  cases hs : Transition.run (System.step app) (System.init app 0 0 db : RankSystem Nat) ls with
  | none =>
    rw [hs] at h
    cases h
  | some s =>
    rw [hs] at h
    obtain ⟨hset, h⟩ := Bool.and_eq_true_iff.mp h
    cases ht : Transition.run (System.step app) s ((i, .ask q) :: ls') with
    | none =>
      rw [ht] at h
      cases h
    | some t =>
      rw [ht] at h
      obtain ⟨hversion, hanswer, hne, hdiff⟩ := of_decide_eq_true h
      refine ⟨s, t, _, hs, ht, hanswer, ?_⟩
      rintro ⟨v, hv, hall, heq⟩
      obtain rfl : v = n :=
        Nat.le_antisymm (hversion ▸ hv) (hall n hset fun hsame => hdiff (hsame p hp))
      exact hne (Except.ok.inj heq).symm

def nameS : Name := ⟨"s", by decide⟩

/-- A store with the string `s`. -/
def oneString : Db := ((∅ : Db).insert (typeOfKeyGet "s") ⟨KeyType.string.name, 0⟩).insert
    (stringKey "s") ⟨"v", 0⟩

end Run

end BoltDB.Store.RankCache
