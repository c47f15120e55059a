import BoltDB.Store.ZSetRecords

/-!
# Runs of sorted set commands

A store that only sorted set commands and `DEL` have written, under names without `:`, keeps the
records of every sorted set in step, as long as no `ZADD` names a member twice and no `Z*STORE`
writes to a set that has members.

A repeated member is looked up once for every time it is named, before anything is written: it is
counted twice, and the index record of its first score stays. A `Z*STORE` forgets the number of
members of its destination but leaves the members.
-/

namespace BoltDB.Store.SortedSets

open Bytes KeyValue List Std.ExtTreeMap Option

/-! ## Members that are read differ -/

/-- No member is listed twice. -/
def Distinct (ms : List (Bytes × F64)) : Prop := (ms.map Prod.fst).Nodup

variable {key : Bytes} {db : Db} {ms : List (Bytes × F64)} {now : Nat}

theorem Distinct.sublist {ms' : List (Bytes × F64)} (h : Distinct ms) (hs : ms'.Sublist ms) :
    Distinct ms' := (hs.map Prod.fst).nodup h

theorem parseZSetIndexKey_sortedSetKeyIndex (key m : Bytes) (s : F64) (v : UInt32) :
    parseZSetIndexKey key (sortedSetKeyIndex key s m v) =
      some (m, decodeScore (encodeScore s)) := by
  have hrest : (sortedSetKeyIndex key s m v).drop (indexPrefix key).length =
      encodeScore s ++ ascii ":" ++ m ++ (ascii ":" ++ encodeVersion v) := by
    rw [sortedSetKeyIndex, drop_left, ← append_assoc]
  have hcolon : (ascii ":").length = 1 := rfl
  have hhead : (encodeScore s ++ ascii ":").length = 9 := by simp [hcolon]
  have hmember : (encodeScore s ++ ascii ":" ++ m).length = m.length + 9 := by
    rw [length_append, hhead, Nat.add_comm]
  have hlen : (encodeScore s ++ ascii ":" ++ m ++ (ascii ":" ++ encodeVersion v)).length =
      m.length + 14 := by
    rw [length_append, hmember, length_append, hcolon, length_encodeVersion]
  have hscore : (encodeScore s ++ ascii ":" ++ m ++ (ascii ":" ++ encodeVersion v)).take 8 =
      encodeScore s := by
    exact take_left' (length_encodeScore s)
  rw [parseZSetIndexKey, hrest, if_neg (by omega), hscore, take_left' (by omega), drop_left' hhead]

theorem byRank_sublist {start stop : Int64} (h : zRangeMembersByRank key start stop db = .ok ms) :
    ms.Sublist ((scan (indexPrefix key) db).filterMap (parseZSetIndexKey key ·.1)) := by
  obtain ⟨mt, -, h⟩ := View.bind_eq_ok.mp h
  cases mt with
  | none =>
    cases h
    exact nil_sublist _
  | some mt =>
    dsimp only at h
    cases hrange : normalizeRankRange mt.card start stop with
    | none =>
      rw [hrange] at h
      cases h
      exact nil_sublist _
    | some r =>
      rw [hrange] at h
      obtain ⟨es, hes, h⟩ := View.bind_eq_ok.mp h
      cases hes
      cases h
      exact List.Sublist.filterMap _ ((drop_sublist _ _).trans (take_sublist _ _))

section Reading

variable {key : Bytes} {db : Db} (h : Matched key db)

include h

/-- The index records name each member once. -/
theorem Matched.distinct_scan :
    Distinct ((scan (indexPrefix key) db).filterMap (parseZSetIndexKey key ·.1)) := by
  have hname : ∀ e ∈ scan (indexPrefix key) db, ∃ m s v, e.1 = sortedSetKeyIndex key s m v ∧
      dataOf key m db = some (encodeDataValue s v) := fun e he => by
    obtain ⟨hget, hpre⟩ := mem_scan.mp he
    have hin : e.1 ∈ db := by
      rw [mem_iff_isSome_getElem?, hget]
      rfl
    obtain ⟨m, s, v, hp⟩ := h.names e.1 hpre hin
    exact ⟨m, s, v, hp, (h.index m s v).mp (hp ▸ hin)⟩
  rw [Distinct, List.Nodup, pairwise_map, pairwise_filterMap]
  refine (sorted_scan _ db).imp_of_mem fun {e f} he hf hlt a ha b hb hab => ?_
  obtain ⟨m, s, v, hp, hdata⟩ := hname e he
  obtain ⟨m', s', v', hp', hdata'⟩ := hname f hf
  rw [hp, parseZSetIndexKey_sortedSetKeyIndex] at ha
  rw [hp', parseZSetIndexKey_sortedSetKeyIndex] at hb
  cases ha
  cases hb
  -- one member, so one data record, so one name
  obtain rfl : m = m' := hab
  rw [hdata] at hdata'
  have hsame : e.1 = f.1 := by
    rw [hp, hp', sortedSetKeyIndex_inj]
    exact ⟨rfl, Option.some.inj hdata'⟩
  have hself : compare f.1 f.1 = .eq := Std.ReflCmp.compare_self
  rw [hsame, hself] at hlt
  cases hlt

theorem Matched.distinct_byRank {start stop : Int64} {ms : List (Bytes × F64)}
    (hms : zRangeMembersByRank key start stop db = .ok ms) : Distinct ms :=
  h.distinct_scan.sublist (byRank_sublist hms)

end Reading

theorem scoreLoop_sublist (r : ScoreRange) (l : List (Option (Bytes × F64))) :
    (scoreLoop r l).Sublist (l.filterMap id) := by
  induction l with
  | nil => exact List.Sublist.refl _
  | cons o l ih =>
    cases o with
    | none => exact ih
    | some m =>
      rw [scoreLoop]
      split_ifs
      all_goals first | exact nil_sublist _ | exact ih.cons _ | exact ih.cons_cons _

section Reading

variable {key : Bytes} {db : Db} (h : Matched key db)

include h

theorem Matched.distinct_byScore {r : ScoreRange} {ms : List (Bytes × F64)}
    (hms : zRangeMembersByScore key r db = .ok ms) : Distinct ms := by
  obtain ⟨es, hes, hms⟩ := View.bind_eq_ok.mp hms
  cases hes
  cases hms
  refine h.distinct_scan.sublist ((scoreLoop_sublist r _).trans ?_)
  rw [filterMap_map]
  exact filter_sublist.filterMap _

theorem Matched.distinct_readMembers {ms : List (Bytes × F64)} (hms : readMembers key db = .ok ms) :
    Distinct ms := by
  obtain ⟨_, -, hms⟩ := View.bind_eq_ok.mp hms
  exact h.distinct_byRank hms

end Reading

theorem distinct_toList (scores : Scores) : Distinct scores.toList := by
  rw [Distinct, List.Nodup, pairwise_map]
  refine distinct_keys_toList.imp fun {a b} hne heq => hne ?_
  rw [heq]
  exact Std.ReflCmp.compare_self

theorem distinct_zDiffMembers {keys : List Bytes} (h : ∀ key ∈ keys, Matched key db)
    (hms : zDiffMembers keys db = .ok ms) : Distinct ms := by
  cases keys with
  | nil =>
    cases hms
    exact nodup_nil
  | cons key others =>
    obtain ⟨first, hfirst, hms⟩ := View.bind_eq_ok.mp hms
    obtain ⟨new, rfl, hnew⟩ := View.foldlM_sublist (fun acc m acc' hstep => by
      obtain ⟨found, _, hstep⟩ := View.bind_eq_ok.mp hstep
      cases hstep
      cases found
      · exact .inr rfl
      · exact .inl rfl) hms
    exact ((h key mem_cons_self).distinct_readMembers hfirst).sublist hnew

section Limits

variable {α : Type} {l r : List α} {offset count : Int64} {db : Db}

theorem slice_sublist {start stop : Int64} (h : slice l start stop db = .ok r) : r.Sublist l := by
  unfold slice at h
  split at h
  · cases h
    exact (drop_sublist _ _).trans (take_sublist _ _)
  · cases h

theorem applyRankLimit_sublist (h : applyRankLimit l offset count db = .ok r) : r.Sublist l := by
  unfold applyRankLimit at h
  split at h
  · split at h <;> exact slice_sublist h
  · cases h
    exact List.Sublist.refl _

theorem applyLexLimit_sublist (h : applyLexLimit l offset count db = .ok r) : r.Sublist l := by
  simp only [applyLexLimit] at h
  generalize (if offset < 0 then 0 else offset) = start at h
  split at h
  · split at h
    · cases h
      exact drop_sublist _ _
    · exact slice_sublist h
  · cases h
    exact nil_sublist _

theorem applyZSetScoreOffsetCount_sublist :
    (applyZSetScoreOffsetCount l offset count).Sublist l := by
  unfold applyZSetScoreOffsetCount
  split
  · exact nil_sublist _
  · dsimp only
    split_ifs
    · exact (take_sublist _ _).trans (drop_sublist _ _)
    · exact take_sublist _ _
    · exact drop_sublist _ _
    · exact List.Sublist.refl _

end Limits

theorem Distinct.reverse_if (h : Distinct ms) (rev : Bool) :
    Distinct (if rev then ms.reverse else ms) := by
  split
  · rw [Distinct, map_reverse, nodup_reverse]
    exact h
  · exact h

theorem distinct_zRangeStoreMembers {source : Bytes} {rev : Bool} {offset count : Int64}
    {range : StoreRange} (h : Matched source db)
    (hms : zRangeStoreMembers source rev offset count range db = .ok ms) : Distinct ms := by
  cases range with
  | rank start stop =>
    cases rev <;>
    · obtain ⟨all, hall, hms⟩ := View.bind_eq_ok.mp hms
      obtain ⟨_, -, hall⟩ := View.bind_eq_ok.mp hall
      exact (h.distinct_byRank hall).sublist (applyRankLimit_sublist hms)
  | score min max =>
    obtain ⟨all, hall, hms⟩ := View.bind_eq_ok.mp hms
    cases hms
    exact ((h.distinct_byScore hall).sublist applyZSetScoreOffsetCount_sublist).reverse_if rev
  | lex min max =>
    obtain ⟨all, hall, hms⟩ := View.bind_eq_ok.mp hms
    obtain ⟨names, hnames, hms⟩ := View.bind_eq_ok.mp hms
    cases hms
    refine Distinct.reverse_if (Distinct.sublist ?_ (applyLexLimit_sublist hnames)) rev
    rw [Distinct, List.map_map]
    exact (h.distinct_readMembers hall).sublist filter_sublist

/-! ## Stores of sorted sets -/

/-- A set without records. -/
theorem matched_of_none (h : ∀ p, dataPrefix key <+: p ∨ indexPrefix key <+: p → db[p]? = none) :
    Matched key db ∧ members key db = ∅ := by
  have hdata : ∀ m, dataOf key m db = none := fun m => by
    rw [dataOf, h _ (.inl (member_hasDataPrefix key m))]
    rfl
  have hindex : ∀ p, indexPrefix key <+: p → p ∉ db := fun p hp hin => by
    rw [mem_iff_isSome_getElem?, h p (.inr hp)] at hin
    cases hin
  refine ⟨⟨fun m b hb => ?_, fun m s v => ?_, fun p hp hin => absurd hin (hindex p hp)⟩, ?_⟩
  · rw [hdata] at hb
    cases hb
  · rw [hdata]
    exact ⟨fun hin => absurd hin (hindex _ (index_hasIndexPrefix key m s v)), by simp⟩
  · refine Finset.eq_empty_of_forall_notMem fun m hm => ?_
    rw [mem_members, hdata] at hm
    cases hm

/-- Every record belongs to a sorted set, none expires, and the records of each set are in step. -/
structure Inv (db : Db) : Prop where
  names : ∀ p e, db[p]? = some e →
    e.expiresAt = 0 ∧ ∃ key, 58 ∉ key ∧ (p = typeOfKeyGet key ∨ IsZSetRecord key p)
  sets : ∀ key, 58 ∉ key → Consistent key db

/-- No sorted set has so many members that their number does not fit a cardinality. -/
def Small (db : Db) : Prop := ∀ key, 58 ∉ key → (members key db).card < 2 ^ 63

/-- What may change when one sorted set is written. -/
def ZOwned (key p : Bytes) (e : Option Entry) : Prop :=
  Owns key p ∧ ∀ x, e = some x → x.expiresAt = 0 ∧ (p = typeOfKeyGet key ∨ IsZSetRecord key p)

theorem ZMayRemove.zOwned {p : Bytes} {e : Option Entry} (h : ZMayRemove key p e) :
    ZOwned key p e := by
  rcases h with ⟨rfl, he⟩ | ⟨hp, he⟩
  · refine ⟨owns_typeOfKeyGet key, fun x hx => ⟨?_, .inl rfl⟩⟩
    rcases he with rfl | rfl <;> cases hx
    rfl
  · exact ⟨hp.isRecord.owns, fun x hx => ⟨he x hx, .inr hp⟩⟩

theorem zOwned_none {p : Bytes} (h : Owns key p) : ZOwned key p none :=
  ⟨h, fun _ => nofun⟩

section Changes

variable {key : Bytes} {db db' : Db} (hkey : 58 ∉ key) (hch : Changes (ZOwned key) db db')

include hkey hch

/-- The records of another set do not change. -/
theorem eq_of_changes {key' p : Bytes} (hkey' : 58 ∉ key') (hne : key' ≠ key) (hp : Owns key' p) :
    db'[p]? = db[p]? := by
  refine (hch p).resolve_right fun hw => ?_
  rcases hw.1.key_cases hp with rfl | hover
  · exact hne rfl
  · exact not_overlap_of_notMem hkey hkey' hover

theorem Inv.of_changes (h : Inv db) (hc : Consistent key db') : Inv db' := by
  refine ⟨fun p e he => ?_, fun key' hkey' => ?_⟩
  · rcases hch p with heq | hw
    · exact h.names p e (heq ▸ he)
    · obtain ⟨hexp, hp⟩ := hw.2 e he
      exact ⟨hexp, key, hkey, hp⟩
  · by_cases hne : key' = key
    · exact hne ▸ hc
    · exact (h.sets key' hkey').congr fun p hp => eq_of_changes hkey hch hkey' hne hp

theorem Small.of_changes (h : Small db) (hc : (members key db').card < 2 ^ 63) : Small db' := by
  intro key' hkey'
  by_cases hne : key' = key
  · exact hne ▸ hc
  · rw [members_congr fun p hp => eq_of_changes hkey hch hkey' hne
      (IsZSetRecord.isRecord (.inr (.inl hp))).owns]
    exact h key' hkey'

end Changes

theorem Inv.visible_eq (h : Inv db) (now : Nat) : visible now db = db := by
  apply Std.ExtTreeMap.ext_getElem?
  intro p
  rw [getElem?_visible]
  cases hget : db[p]? with
  | none => rfl
  | some e => rw [filter_some, if_pos (by simp [Entry.live, (h.names p e hget).1])]

theorem Inv.update_snd {α : Type} {m : Txn Err α} {I : Db → Prop} (h : Inv db) (hI : I db)
    (hm : ∀ a db', m db = .ok (a, db') → I db') : I (update now m db).2 := by
  rw [update, Run.update, h.visible_eq]
  cases hres : m db with
  | error e => exact hI
  | ok r => exact hm r.1 r.2 hres

theorem inv_empty : Inv ∅ := by
  have hnone : ∀ p : Bytes, (∅ : Db)[p]? = none := fun p => getElem?_empty
  refine ⟨fun p e he => ?_, fun key _ => ?_⟩
  · rw [hnone] at he
    cases he
  · have hempty : Matched key ∅ ∧ members key ∅ = ∅ := matched_of_none fun p _ => hnone p
    exact .of_empty hempty.1 hempty.2 (hnone _) (hnone _)

/-! ## One set -/

section OneSet

variable {key : Bytes} {db db' : Db} (h : Inv db) (hkey : 58 ∉ key)

include h hkey

theorem Inv.of_writes {α : Type} {m : Txn Err α} {a : α} (hw : Writes (ZMayRemove key) m)
    (hm : m db = .ok (a, db')) (hc : Consistent key db') : Inv db' :=
  h.of_changes hkey ((hw db a db' hm).mono fun _ _ => ZMayRemove.zOwned) hc

variable {ms : List (Bytes × F64)}

theorem Inv.zAddMembers {b : Bool} (hd : Distinct ms) (hm : zAddMembers key ms db = .ok (b, db')) :
    Inv db' :=
  h.of_writes hkey ((writes_zAddMembers ms).mono fun _ _ => ZTouches.zMayRemove) hm
    ((h.sets key hkey).zAddMembers hd hm)

theorem Inv.zAdd {now : Nat} (hd : Distinct ms) : Inv (zAdd now key ms db).2 := by
  unfold SortedSets.zAdd
  split
  · exact h
  · refine (void_snd (update now (SortedSets.zAddMembers key ms)) db).symm ▸ ?_
    exact h.update_snd h fun _ _ hm => h.zAddMembers hkey hd hm

theorem Inv.zAddMembersOpts {o : ZAddOptions} {n : Nat} (hd : Distinct ms)
    (hm : zAddMembersOpts key o ms db = .ok (n, db')) : Inv db' :=
  h.of_writes hkey ((writes_zAddMembersOpts o ms).mono fun _ _ => ZTouches.zMayRemove) hm
    ((h.sets key hkey).zAddMembersOpts hd hm)

theorem Inv.zIncrByTxn {m : Bytes} {increment x : F64}
    (hm : zIncrByTxn key m increment db = .ok (x, db')) : Inv db' :=
  h.of_writes hkey ((writes_zIncrByTxn m increment).mono fun _ _ => ZTouches.zMayRemove) hm
    ((h.sets key hkey).zIncrByTxn hm)

theorem Inv.zRemMember {m : Bytes} {b : Bool} (hs : Small db)
    (hm : zRemMember key m db = .ok (b, db')) : Inv db' ∧ Small db' := by
  obtain ⟨hc, hcard⟩ := (h.sets key hkey).zRemMember (hs key hkey) hm
  have hch : Changes (ZOwned key) db db' :=
    (writes_zRemMember m db b db' hm).mono fun _ _ => ZMayRemove.zOwned
  exact ⟨h.of_changes hkey hch hc, hs.of_changes hkey hch hcard⟩

theorem Inv.zRemMembers {removed : List (Bytes × F64)} (hs : Small db)
    (hm : zRemMembers key ms db = .ok (removed, db')) : Inv db' ∧ Small db' := by
  obtain ⟨hc, hcard⟩ := (h.sets key hkey).zRemMembers (hs key hkey) hm
  have hch : Changes (ZOwned key) db db' :=
    (writes_zRemMembers ms db removed db' hm).mono fun _ _ => ZMayRemove.zOwned
  exact ⟨h.of_changes hkey hch hc, hs.of_changes hkey hch hcard⟩

theorem Inv.zRemCount {n : Nat} (hs : Small db)
    (hm : (do return (← SortedSets.zRemMembers key ms).length : Txn Err Nat) db = .ok (n, db')) :
    Inv db' := by
  obtain ⟨removed, db₁, hrem, hret⟩ := Txn.bind_eq_ok.mp hm
  obtain ⟨-, rfl⟩ := Txn.pure_eq_ok.mp hret
  exact (h.zRemMembers hkey hs hrem).1

theorem Inv.zPopTxn {max : Bool} {count : Int64} {popped : List (Bytes × F64)} (hs : Small db)
    (hm : zPopTxn max key count db = .ok (popped, db')) : Inv db' ∧ Small db' := by
  obtain ⟨_, _, hm⟩ := Txn.lift_bind_eq_ok.mp hm
  obtain ⟨ms, _, hm⟩ := Txn.lift_bind_eq_ok.mp hm
  exact h.zRemMembers hkey hs hm

theorem Inv.zPop {max : Bool} {count : Int64} {now : Nat} (hs : Small db) :
    Inv (zPop max now key count db).2 ∧ Small (zPop max now key count db).2 := by
  unfold SortedSets.zPop
  split
  · exact ⟨h, hs⟩
  · exact h.update_snd (I := fun db => Inv db ∧ Small db) ⟨h, hs⟩ fun _ _ hm => h.zPopTxn hkey hs hm

end OneSet

/-- What `ZADD` needs. -/
def Op.Sound : Op → Prop
  | zAdd ms => Distinct ms
  | zAddWithOptions _ ms => Distinct ms
  | _ => True

theorem Inv.update {α : Type} {m : Txn Err α} (h : Inv db)
    (hm : ∀ a db', m db = .ok (a, db') → Inv db') : Inv (void (update now m) db).2 := by
  rw [void_snd]
  exact h.update_snd h hm

theorem Inv.op (h : Inv db) (hs : Small db) (hkey : 58 ∉ key) {op : Op} (hop : op.Sound) :
    Inv (op.run now key db).2 := by
  cases op with
  | zAdd ms => exact h.zAdd hkey hop
  | zAddWithOptions o ms =>
    show Inv (void (SortedSets.zAddWithOptions now key o ms) db).2
    unfold SortedSets.zAddWithOptions
    split
    · exact h
    · exact h.update fun _ _ hm => h.zAddMembersOpts hkey hop hm
  | zIncrBy m increment => exact h.update fun _ _ hm => h.zIncrByTxn hkey hm
  | zRem m => exact h.update fun _ _ hm => (h.zRemMember hkey hs hm).1
  | zRemRangeByRank start stop =>
    refine h.update fun _ _ hm => ?_
    obtain ⟨ms, _, hrem⟩ := Txn.lift_bind_eq_ok.mp hm
    exact h.zRemCount hkey hs hrem
  | zRemRangeByScore r =>
    refine h.update fun _ _ hm => ?_
    obtain ⟨ms, _, hrem⟩ := Txn.lift_bind_eq_ok.mp hm
    exact h.zRemCount hkey hs hrem
  | zRemRangeByLex min max =>
    refine h.update fun _ _ hm => ?_
    obtain ⟨ms, _, hrem⟩ := Txn.lift_bind_eq_ok.mp hm
    exact h.zRemCount hkey hs hrem
  | zPop max count =>
    show Inv (void (SortedSets.zPop max now key count) db).2
    rw [void_snd]
    exact (h.zPop hkey hs).1

theorem Inv.zMPop {max : Bool} {count : Int64} {keys : List Bytes} (hkeys : ∀ key ∈ keys, 58 ∉ key) :
    Keeps (fun db => Inv db ∧ Small db) (zMPop now max count keys) := by
  induction keys with
  | nil => exact keeps_pure
  | cons key keys ih =>
    refine keeps_bind (keeps_view _) fun _ => keeps_bind (fun db hdb => ?_) fun popped => ?_
    · exact hdb.1.zPop (hkeys key mem_cons_self) hdb.2
    · exact keeps_ite (ih fun k hk => hkeys k (mem_cons_of_mem key hk)) keeps_pure

/-! ## Storing into a set -/

/-- Every record comes with the type of its set. -/
theorem Inv.type_of_record {p : Bytes} (h : Inv db) (hkey : 58 ∉ key) (hp : IsZSetRecord key p)
    (hin : p ∈ db) : typeOfKeyGet key ∈ db := by
  have hc := h.sets key hkey
  have hmember : ∀ m, (dataOf key m db).isSome = true → typeOfKeyGet key ∈ db := fun m hm => by
    rcases hc.counted with ⟨_, hempty⟩ | ⟨mt, hmeta, _⟩
    · rw [← mem_members, hempty] at hm
      simp at hm
    · have htype := hc.type_of_meta hmeta
      rw [mem_iff_isSome_getElem?, ← isSome_map, htype]
      rfl
  rcases hp with rfl | ⟨m, rfl⟩ | hp
  · exact hc.hasType hin
  · refine hmember m ?_
    rw [dataOf, sortedSetKeyMember_eq, isSome_map]
    rwa [mem_iff_isSome_getElem?] at hin
  · obtain ⟨m, s, v, rfl⟩ := hc.names p hp hin
    refine hmember m ?_
    rw [(hc.index m s v).mp hin]
    rfl

theorem compare_record_type {p : Bytes} (hp : IsZSetRecord key p) (key' : Bytes) :
    compare p (typeOfKeyGet key') = .gt := by
  obtain ⟨x, rfl⟩ := hp.isRecord.tag_append
  rfl

/-- The first record of the store is the type of a set. -/
theorem Inv.head_scan (h : Inv db) {e : Bytes × Entry} {es : List (Bytes × Entry)}
    (hscan : scan [] db = e :: es) : ∃ key, 58 ∉ key ∧ e.1 = typeOfKeyGet key := by
  have he : e ∈ scan [] db := hscan ▸ mem_cons_self
  obtain ⟨hget, -⟩ := mem_scan.mp he
  obtain ⟨-, key, hkey, htype | hrecord⟩ := h.names e.1 e.2 hget
  · exact ⟨key, hkey, htype⟩
  · have hin : e.1 ∈ db := by
      rw [mem_iff_isSome_getElem?, hget]
      rfl
    have htype := h.type_of_record hkey hrecord hin
    rw [mem_iff_isSome_getElem?] at htype
    obtain ⟨t, ht⟩ := isSome_iff_exists.mp htype
    have hmem : (typeOfKeyGet key, t) ∈ scan [] db := mem_scan.mpr ⟨ht, nil_prefix⟩
    have hsorted := sorted_scan [] db
    rw [hscan] at hmem hsorted
    -- the type record of the set would come first
    rcases mem_cons.mp hmem with rfl | hmem
    · exact ⟨key, hkey, rfl⟩
    · have hlt : compare e.1 (typeOfKeyGet key) = .lt := rel_of_pairwise_cons hsorted hmem
      rw [compare_record_type hrecord] at hlt
      cases hlt

/-- A loop over the records from there on, as long as their names have a prefix with a `:`, ends at
once. -/
theorem Inv.deleteLeading {x : Bytes} (h : Inv db) :
    deleteLeading (key ++ 58 :: x) db = .ok ((), db) := by
  have hnone : (scan [] db).takeWhile ((key ++ 58 :: x).isPrefixOf ·.1) = [] := by
    cases hscan : scan [] db with
    | nil => rfl
    | cons e es =>
      have hnot : (key ++ 58 :: x).isPrefixOf e.1 = false := by
        rw [← Bool.not_eq_true, isPrefixOf_iff_prefix]
        rintro ⟨y, hy⟩
        obtain ⟨k, hk, hp⟩ := h.head_scan hscan
        have hcolon : 58 ∈ typeOfKeyGet k := by
          rw [← hp, ← hy]
          simp
        exact hk (by simpa [typeOfKeyGet, ascii] using hcolon)
      rw [takeWhile_cons, hnot]
      rfl
  show (((scan [] db).takeWhile ((key ++ 58 :: x).isPrefixOf ·.1)).forM fun e => Txn.delete e.1 :
    Txn Err Unit) db = _
  rw [hnone]
  rfl

section Stores

variable {key : Bytes} {db db' : Db} (h : Inv db) (hkey : 58 ∉ key)

theorem Inv.zSetDel_apply (h : Inv db) (key : Bytes) : zSetDel key db =
    .ok ((), (db.erase (sortedSetKeyMeta key)).erase (typeOfKeyGet key)) := by
  have hdata : SortedSets.deleteLeading (key ++ ":data:") db = .ok ((), db) := h.deleteLeading
  have hindex : SortedSets.deleteLeading (key ++ ":index:") db = .ok ((), db) := h.deleteLeading
  rw [zSetDel, Txn.bind_apply, hdata]
  dsimp only
  rw [Txn.bind_apply, hindex]
  rfl

include h hkey

/-- The meta record and the type go; the members are not looked at. -/
theorem Inv.zSetDel (hempty : members key db = ∅) (hdel : zSetDel key db = .ok ((), db')) :
    Inv db' ∧ members key db' = ∅ := by
  rw [h.zSetDel_apply] at hdel
  obtain ⟨-, rfl⟩ := Txn.pure_eq_ok.mp hdel
  have hmembers : members key ((db.erase (sortedSetKeyMeta key)).erase (typeOfKeyGet key)) = ∅ := by
    rw [members_erase (.inr rfl), members_erase (.inl rfl), hempty]
  refine ⟨h.of_changes hkey ?_ (.of_empty (((h.sets key hkey).toMatched.erase (.inl rfl)).erase
    (.inr rfl)) hmembers ?_ ?_), hmembers⟩
  · intro p
    rw [getElem?_erase_ite, getElem?_erase_ite]
    split_ifs with htype hmeta
    · exact .inr (zOwned_none (htype ▸ owns_typeOfKeyGet key))
    · exact .inr (zOwned_none (hmeta ▸ (isRecord_sortedSetKeyMeta key).owns))
    · exact .inl rfl
  · rw [getElem?_erase_ite, if_neg (meta_ne_type key), getElem?_erase_ite, if_pos rfl]
  · rw [getElem?_erase_ite, if_pos rfl]

theorem Inv.zStoreReplace {ms : List (Bytes × F64)} {n : Nat} (hempty : members key db = ∅)
    (hd : Distinct ms) (hm : zStoreReplace key ms db = .ok (n, db')) : Inv db' := by
  obtain ⟨_, db₁, hdel, hm⟩ := Txn.bind_eq_ok.mp hm
  obtain ⟨b, db₂, hadd, hm⟩ := Txn.bind_eq_ok.mp hm
  obtain ⟨-, rfl⟩ := Txn.pure_eq_ok.mp hm
  exact (h.zSetDel hkey hempty hdel).1.zAddMembers hkey hd hadd

theorem Inv.delTxn {n : Nat} (hm : delTxn key db = .ok (n, db')) : Inv db' := by
  obtain ⟨e, db₁, hget, hm⟩ := Txn.bind_eq_ok.mp hm
  obtain ⟨hget, hsame⟩ := Txn.ofView_eq_ok.mp hget
  rw [hsame] at hm
  cases e with
  | none =>
    obtain ⟨-, rfl⟩ := Txn.pure_eq_ok.mp hm
    exact h
  | some e =>
    have hvalue : e.value = KeyType.sortedSet.name := (h.sets key hkey).typed e (Except.ok.inj hget)
    dsimp only at hm
    rw [hvalue] at hm
    obtain ⟨_, db₁, hdata, hm⟩ := Txn.bind_eq_ok.mp hm
    rw [Txn.delete_bind] at hm
    obtain ⟨-, rfl⟩ := Txn.pure_eq_ok.mp hm
    obtain rfl : (db.filter fun k _ => !(recordPrefix .sortedSet key).isPrefixOf k) = db₁ := by
      rw [deleteData, KeyType.ofName_name] at hdata
      exact (Txn.pure_eq_ok.mp hdata).2
    have hrest : ∀ p, ((db.filter fun k _ => !(recordPrefix .sortedSet key).isPrefixOf k).erase
        (typeOfKeyGet key))[p]? =
          if p = typeOfKeyGet key then none
          else if recordPrefix .sortedSet key <+: p then none else db[p]? := fun p => by
      rw [getElem?_erase_ite, getElem?_erasePrefix]
    have hrecord : ∀ p, IsZSetRecord key p → recordPrefix .sortedSet key <+: p :=
      fun p hp => hp.isRecord
    have hgone : ∀ p, IsZSetRecord key p → ((db.filter fun k _ =>
        !(recordPrefix .sortedSet key).isPrefixOf k).erase (typeOfKeyGet key))[p]? = none :=
      fun p hp => by rw [hrest, if_pos (hrecord p hp), ite_self]
    obtain ⟨hmatched, hmembers⟩ := matched_of_none fun p hp => hgone p (.inr hp)
    refine h.of_changes hkey (fun p => ?_) (.of_empty hmatched hmembers (hgone _ isZSetRecord_meta) ?_)
    · rw [hrest]
      split_ifs with htype hpre
      · exact .inr (zOwned_none (htype ▸ owns_typeOfKeyGet key))
      · exact .inr (zOwned_none (isRecord_of_isPrefix rfl hpre).owns)
      · exact .inl rfl
    · rw [hrest, if_pos rfl]

end Stores

/-! ## Commands -/

/-- The commands that write sorted sets, and `DEL`. -/
inductive Command
  | one (key : Bytes) (op : Op)
  | zMPop (keys : List Bytes) (max : Bool) (count : Int64)
  | zUnionStore (destination : Bytes) (keys : List Bytes) (weights : List F64) (aggregate : Bytes)
  | zInterStore (destination : Bytes) (keys : List Bytes) (weights : List F64) (aggregate : Bytes)
  | zDiffStore (destination : Bytes) (keys : List Bytes)
  | zRangeStore (destination source : Bytes) (range : StoreRange) (rev : Bool)
      (offset count : Int64)
  | del (key : Bytes)

namespace Command

def run (now : Nat) : Command → Run Err Unit
  | one key op => op.run now key
  | zMPop keys max count => void (SortedSets.zMPop now max count keys)
  | zUnionStore destination keys weights aggregate =>
    void (SortedSets.zUnionStore now destination keys weights aggregate)
  | zInterStore destination keys weights aggregate =>
    void (SortedSets.zInterStore now destination keys weights aggregate)
  | zDiffStore destination keys => void (SortedSets.zDiffStore now destination keys)
  | zRangeStore destination source range rev offset count =>
    void (SortedSets.zRangeStore now destination source range rev offset count)
  | del key => void (Store.del now key)

/-- The names a command uses. -/
def names : Command → List Bytes
  | one key _ | del key => [key]
  | zMPop keys _ _ => keys
  | zUnionStore destination keys _ _ | zInterStore destination keys _ _
  | zDiffStore destination keys => destination :: keys
  | zRangeStore destination source _ _ _ _ => [destination, source]

/-- What keeps the records in step: no member twice in one `ZADD`, and no `Z*STORE` onto members. -/
def Sound (db : Db) : Command → Prop
  | one _ op => op.Sound
  | zUnionStore destination _ _ _ | zInterStore destination _ _ _ | zDiffStore destination _ =>
    members destination db = ∅
  | _ => True

end Command

theorem Inv.command {c : Command} (h : Inv db) (hs : Small db) (hnames : ∀ key ∈ c.names, 58 ∉ key)
    (hc : c.Sound db) : Inv (c.run now db).2 := by
  cases c with
  | one key op => exact h.op hs (hnames key mem_cons_self) hc
  | zMPop keys max count =>
    show Inv (void (SortedSets.zMPop now max count keys) db).2
    rw [void_snd]
    exact (Inv.zMPop hnames db ⟨h, hs⟩).1
  | zUnionStore destination keys weights aggregate =>
    refine h.update fun _ _ hm => ?_
    obtain ⟨scores, _, hstore⟩ := Txn.lift_bind_eq_ok.mp hm
    exact h.zStoreReplace (hnames destination mem_cons_self) hc (distinct_toList scores) hstore
  | zInterStore destination keys weights aggregate =>
    refine h.update fun _ _ hm => ?_
    obtain ⟨scores, _, hstore⟩ := Txn.lift_bind_eq_ok.mp hm
    exact h.zStoreReplace (hnames destination mem_cons_self) hc (distinct_toList scores) hstore
  | zDiffStore destination keys =>
    refine h.update fun _ _ hm => ?_
    obtain ⟨ms, hms, hstore⟩ := Txn.lift_bind_eq_ok.mp hm
    refine h.zStoreReplace (hnames destination mem_cons_self) hc ?_ hstore
    exact distinct_zDiffMembers (fun key hkey =>
      (h.sets key (hnames key (mem_cons_of_mem _ hkey))).toMatched) hms
  | zRangeStore destination source range rev offset count =>
    have hkey := hnames destination mem_cons_self
    show Inv (void (SortedSets.zRangeStore now destination source range rev offset count) db).2
    rw [void_snd]
    refine Run.bind_snd (fun _ _ => h) fun ms hms => ?_
    have hms : zRangeStoreMembers source rev offset count range db = .ok ms := by
      rw [← h.visible_eq (unix now)]
      exact hms
    have hd := distinct_zRangeStoreMembers
      (h.sets source (hnames source (by simp [Command.names]))).toMatched hms
    have hdel : Inv (Store.del now destination db).2 := h.update_snd h fun _ _ hm => h.delTxn hkey hm
    refine Run.bind_snd (fun _ _ => hdel) fun _ _ => ?_
    have hadd : Inv (SortedSets.zAdd now destination ms (Store.del now destination db).2).2 :=
      hdel.zAdd hkey hd
    exact Run.bind_snd (fun _ _ => hadd) fun _ _ => hadd
  | del key =>
    exact h.update fun _ _ hm => h.delTxn (hnames key mem_cons_self) hm

/-- The states that sound commands under names without `:` lead to, at any times. -/
inductive Reached : Db → Prop
  | empty : Reached ∅
  | step {db : Db} (now : Nat) (c : Command) : Reached db → Small db →
      (∀ key ∈ c.names, 58 ∉ key) → c.Sound db → Reached (c.run now db).2

theorem Reached.inv (h : Reached db) : Inv db := by
  induction h with
  | empty => exact inv_empty
  | step now c _ hsmall hnames hc ih => exact ih.command hsmall hnames hc

/-- The members with a data record are those with an index record and those the meta record counts,
and a member's one index record carries the score and the version of its data record. -/
theorem zset_records_agree {db : Db} (h : Reached db) {key : Bytes} (hkey : 58 ∉ key) :
    (∀ p, indexPrefix key <+: p → p ∈ db → ∃ m s v, p = sortedSetKeyIndex key s m v) ∧
    (∀ m, m ∈ members key db ↔ ∃ s v, sortedSetKeyIndex key s m v ∈ db) ∧
    (∀ m ∈ members key db, ∃ s v, dataOf key m db = some (encodeDataValue s v) ∧
      ∀ p, (p ∈ db ∧ ∃ s' v', p = sortedSetKeyIndex key s' m v') ↔ p = sortedSetKeyIndex key s m v) ∧
    (getMeta key db = .ok none ∧ members key db = ∅ ∨
      ∃ mt, getMeta key db = .ok (some mt) ∧ mt.card = Int64.ofNat (members key db).card) := by
  have hc := h.inv.sets key hkey
  have hdata : ∀ m ∈ members key db, ∃ s v, dataOf key m db = some (encodeDataValue s v) :=
    fun m hm => by
      obtain ⟨b, hb⟩ := isSome_iff_exists.mp (mem_members.mp hm)
      obtain ⟨s, v, rfl⟩ := hc.data m b hb
      exact ⟨s, v, hb⟩
  refine ⟨hc.names, fun m => ⟨fun hm => ?_, ?_⟩, fun m hm => ?_, hc.counted⟩
  · obtain ⟨s, v, hs⟩ := hdata m hm
    exact ⟨s, v, (hc.index m s v).mpr hs⟩
  · rintro ⟨s, v, hin⟩
    rw [mem_members, (hc.index m s v).mp hin]
    rfl
  · obtain ⟨s, v, hs⟩ := hdata m hm
    refine ⟨s, v, hs, fun p => ⟨?_, ?_⟩⟩
    · rintro ⟨hin, s', v', rfl⟩
      rw [hc.index, hs, Option.some.injEq] at hin
      exact sortedSetKeyIndex_inj.mpr ⟨rfl, hin.symm⟩
    · rintro rfl
      exact ⟨(hc.index m s v).mpr hs, s, v, rfl⟩

theorem small_of_size (h : db.size < 2 ^ 63) : Small db := by
  intro key _
  calc (members key db).card
      ≤ ((scan (dataPrefix key) db).map (·.1.drop (dataPrefix key).length)).length :=
        toFinset_card_le _
    _ ≤ db.toList.length := by
        rw [length_map]
        exact length_filter_le _ _
    _ = db.size := Std.ExtTreeMap.length_toList
    _ < 2 ^ 63 := h

/-- `ZADD k 1 a 1 b`, `ZINCRBY k 1 a` and `ZREM k b`. -/
theorem zset_records_agree_run : ∃ db : Db, Reached db ∧ (58 : UInt8) ∉ ascii "k" ∧
    members (ascii "k") db = {ascii "a"} ∧
    ∃ s v, dataOf (ascii "k") (ascii "a") db = some (encodeDataValue s v) ∧
      sortedSetKeyIndex (ascii "k") s (ascii "a") v ∈ db := by
  have h₁ := Reached.empty.step 0
    (.one "k" (.zAdd [("a", F64.one), ("b", F64.one)]))
    (small_of_size (by decide +kernel)) (by decide) (by decide : List.Nodup _)
  have h₂ := h₁.step 0 (.one "k" (.zIncrBy "a" F64.one))
    (small_of_size (by decide +kernel)) (by decide) trivial
  have h₃ := h₂.step 0 (.one "k" (.zRem "b"))
    (small_of_size (by decide +kernel)) (by decide) trivial
  obtain ⟨-, -, hone, -⟩ := zset_records_agree h₃ (by decide : (58 : UInt8) ∉ ascii "k")
  obtain ⟨s, v, hdata, hindex⟩ := hone "a" (by decide +kernel)
  exact ⟨_, h₃, by decide, by decide +kernel, s, v, hdata, ((hindex _).mpr rfl).1⟩

/-- `ZADD k 1 a 0 a` on an empty store: two members are counted and the index record of the first
score stays. -/
theorem repeated_member_diverges :
    let db := ((Command.one (ascii "k")
      (.zAddWithOptions ⟨false, false, false, false, false, false⟩
        [(ascii "a", F64.one), (ascii "a", F64.zero)])).run 0 ∅).2
    members (ascii "k") db = {ascii "a"} ∧ getMeta (ascii "k") db = .ok (some ⟨2, 1⟩) ∧
      sortedSetKeyIndex (ascii "k") F64.one (ascii "a") 1 ∈ db ∧
      sortedSetKeyIndex (ascii "k") F64.zero (ascii "a") 1 ∈ db := by
  decide +kernel

-- `ZUNIONSTORE d 1 e` without a set `e`: the member of `d` stays, and nothing counts it.
example :
    let db := ((Command.one "d" (.zAdd [("a", F64.one)])).run 0 ∅).2
    let db' := ((Command.zUnionStore "d" ["e"] [] "SUM").run 0 db).2
    members (ascii "d") db' = {ascii "a"} ∧ getMeta (ascii "d") db' = .ok none := by
  decide +kernel

end BoltDB.Store.SortedSets
