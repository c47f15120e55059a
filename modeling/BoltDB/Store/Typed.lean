import BoltDB.Store.Commands

/-!
# Type records

In every reachable state, a `TYPE_` record names a type and does not expire.
-/

namespace BoltDB.Store

open Bytes KeyValue

def Typed (db : Db) : Prop :=
  ∀ key e, db[typeOfKeyGet key]? = some e → ∃ t : KeyType, e = ⟨t.name, 0⟩

/-- An entry that a `TYPE_` record may have. -/
def TypedEntry (p : Bytes) (e : Option Entry) : Prop :=
  ∀ key, p = typeOfKeyGet key → ∀ x, e = some x → ∃ t : KeyType, x = ⟨t.name, 0⟩

section Entries

variable {t : KeyType} {key p : Bytes} {e : Option Entry}

theorem typedEntry_none : TypedEntry p none := fun _ _ _ => nofun

theorem typedEntry_of_isRecord (h : IsRecord t key p) : TypedEntry p e := by
  rintro key' rfl
  exact absurd h (not_isRecord_typeOfKeyGet t key key')

theorem Owned.typedEntry (h : Owned key p e) : TypedEntry p e := by
  rcases h with ⟨rfl, he⟩ | ⟨t, ht⟩
  · exact fun _ _ => he
  · exact typedEntry_of_isRecord ht

theorem Touches.typedEntry (h : Touches t key p e) : TypedEntry p e := h.owned.typedEntry

theorem MayRemove.typedEntry (h : MayRemove t key p e) : TypedEntry p e := h.owned.typedEntry

end Entries

section Stores

variable {db db' : Db}

theorem Typed.changes (h : Typed db) (hc : Changes TypedEntry db db') : Typed db' := by
  intro key e he
  rcases hc (typeOfKeyGet key) with heq | hw
  · exact h key e (heq ▸ he)
  · exact hw key rfl e he

theorem getElem?_of_visible {now : Nat} {p : Bytes} {e : Entry}
    (h : (visible now db)[p]? = some e) : db[p]? = some e := by
  rw [getElem?_visible] at h
  exact (Option.filter_eq_some_iff.mp h).1

theorem Typed.visible (h : Typed db) (now : Nat) : Typed (visible now db) :=
  fun key e he => h key e (getElem?_of_visible he)

/-- What is visible later is visible now. -/
theorem visible_of_le {now later : Nat} {p : Bytes} {e : Entry} (hle : now ≤ later)
    (h : (visible later db)[p]? = some e) : (visible now db)[p]? = some e := by
  rw [getElem?_visible] at h ⊢
  obtain ⟨hget, hlive⟩ := Option.filter_eq_some_iff.mp h
  refine Option.filter_eq_some_iff.mpr ⟨hget, ?_⟩
  simp only [Entry.live, Bool.or_eq_true, decide_eq_true_eq] at hlive ⊢
  exact hlive.imp id fun hlt => Nat.lt_of_le_of_lt hle hlt

end Stores

/-! ## One method -/

section Methods

variable {α : Type} {now : Nat} {W : Bytes → Option Entry → Prop}

theorem commits_typed {m : Txn Err α} (h : Writes W m) (hW : ∀ p e, W p e → TypedEntry p e) :
    Commits (unix now) TypedEntry (update now m) :=
  commits_update (h.mono hW) fun _ _ _ _ => typedEntry_none

theorem writes_deleteLeading (pre : Bytes) :
    Writes (fun _ e => e = none) (SortedSets.deleteLeading pre) :=
  writes_read fun _ => writes_forM fun _ _ => writes_delete rfl

theorem writes_zStoreReplace (destination : Bytes) (members : List (Bytes × F64)) :
    Writes TypedEntry (SortedSets.zStoreReplace destination members) := by
  have hnone : ∀ p e, e = none → TypedEntry p e := by
    rintro p e rfl
    exact typedEntry_none
  refine writes_bind ?_ fun _ => writes_bind ?_ fun _ => writes_pure
  · refine writes_bind ((writes_deleteLeading _).mono hnone) fun _ => ?_
    refine writes_bind ((writes_deleteLeading _).mono hnone) fun _ => ?_
    exact writes_bind (writes_delete typedEntry_none) fun _ => writes_delete typedEntry_none
  · exact (SortedSets.writes_zAddMembers members).mono fun p e h => h.touches.typedEntry

theorem commits_lMPop (fromLeft : Bool) (count : Int64) (keys : List Bytes) :
    Commits (unix now) TypedEntry (Lists.lMPop now fromLeft count keys) := by
  induction keys with
  | nil => exact commits_pure
  | cons key keys ih =>
    refine commits_bind (commits_view _) fun _ => commits_bind ?_ fun _ => ?_
    · exact commits_typed (Lists.writes_lMPopTxn fromLeft count) fun p e => Touches.typedEntry
    · exact commits_ite ih commits_pure

theorem commits_zMPop (max : Bool) (count : Int64) (keys : List Bytes) :
    Commits (unix now) TypedEntry (SortedSets.zMPop now max count keys) := by
  induction keys with
  | nil => exact commits_pure
  | cons key keys ih =>
    refine commits_bind (commits_view _) fun _ => commits_bind ?_ fun _ => ?_
    · refine commits_ite commits_pure ?_
      exact commits_typed (SortedSets.writes_zPopTxn max count) fun p e h => h.mayRemove.typedEntry
    · exact commits_ite ih commits_pure

/-- A rename writes the name of the type it finds. -/
theorem typed_renameTxn {key newKey : Bytes} {db db' : Db} (h : Typed db)
    (hrun : renameTxn now key newKey db = .ok ((), db')) : Typed db' := by
  rcases Txn.get_bind_eq_ok.mp hrun with ⟨-, hrun⟩ | ⟨e, hget, hrun⟩
  · cases hrun
  · obtain ⟨t, rfl⟩ := h key e hget
    simp only [KeyType.ofName_name] at hrun
    have hwrites : Writes (OwnedEither key newKey)
        (do deleteDestination newKey; renameData now key newKey t) :=
      writes_bind writes_deleteDestination fun _ => writes_renameData t
    refine h.changes ((hwrites db () db' hrun).mono fun p e hown => ?_)
    exact hown.elim Owned.typedEntry Owned.typedEntry

theorem keeps_typed_rename (now : Nat) (key newKey : Bytes) :
    Keeps (fun db => Typed (visible (unix now) db)) (rename now key newKey) :=
  keeps_ite keeps_pure
    (keeps_update (fun _ _ _ h hrun => typed_renameTxn h hrun) fun _ h => h.visible _)

theorem keeps_typed_renameNX (now : Nat) (key newKey : Bytes) :
    Keeps (fun db => Typed (visible (unix now) db)) (renameNX now key newKey) :=
  keeps_bind (keeps_view _) fun _ => keeps_ite keeps_pure
    (keeps_bind (keeps_typed_rename now key newKey) fun _ => keeps_pure)

end Methods

/-! ## All methods -/

theorem Op.typed (c : Codec) (now : Nat) (op : Op) {db : Db} (h : Typed (visible (unix now) db)) :
    Typed (visible (unix now) (op.run c now db).2) := by
  have step : ∀ {m : Run Err Unit}, Commits (unix now) TypedEntry m →
      Typed (visible (unix now) (m db).2) := fun hm => h.changes (hm db)
  have method : ∀ {α : Type} {m : Txn Err α} {W}, Writes W m → (∀ p e, W p e → TypedEntry p e) →
      Typed (visible (unix now) (void (update now m) db).2) :=
    fun hm hW => step (commits_void (commits_typed hm hW))
  cases op with
  | single key op => exact step ((op.commits c now key).mono fun p e => Owned.typedEntry)
  | mSet pairs =>
    refine step (commits_typed (Strings.writes_mSetTxn pairs) ?_)
    rintro p e ⟨key, -, h⟩
    exact h.typedEntry
  | mSetNX pairs =>
    refine method (Strings.writes_mSetNXTxn pairs) ?_
    rintro p e ⟨key, -, h⟩
    exact h.typedEntry
  | bitOp op dest keys =>
    exact method (Strings.writes_bitOpTxn op keys) fun p e => Touches.typedEntry
  | sMove source destination member =>
    exact method (Sets.writes_sMoveTxn source destination member)
      fun p e h => h.elim Touches.typedEntry Touches.typedEntry
  | sStore op destination keys =>
    exact method (Sets.writes_sStoreTxn op keys) fun p e => Touches.typedEntry
  | rPopLPush source destination id =>
    exact method (Lists.writes_rPopLPushTxn source destination id)
      fun p e h => h.elim Touches.typedEntry Touches.typedEntry
  | lMove source destination fromLeft toLeft id =>
    exact method (Lists.writes_lMoveTxn source destination fromLeft toLeft id)
      fun p e h => h.elim Touches.typedEntry Touches.typedEntry
  | lMPop keys fromLeft count => exact step (commits_void (commits_lMPop fromLeft count keys))
  | zMPop keys max count => exact step (commits_void (commits_zMPop max count keys))
  | zUnionStore destination keys weights aggregate =>
    exact method (writes_read fun _ => writes_zStoreReplace destination _) fun p e => id
  | zInterStore destination keys weights aggregate =>
    exact method (writes_read fun _ => writes_zStoreReplace destination _) fun p e => id
  | zDiffStore destination keys =>
    exact method (writes_read fun _ => writes_zStoreReplace destination _) fun p e => id
  | rename key newKey => exact keeps_typed_rename now key newKey db h
  | renameNX key newKey =>
    exact keeps_bind (keeps_typed_renameNX now key newKey) (fun _ => keeps_pure) db h
  | flushDB => exact fun _ _ => nofun

theorem Reachable.typed {c : Codec} {now : Nat} {db : Db} (h : Reachable c now db) :
    Typed (visible (unix now) db) := by
  induction h with
  | init now => exact fun _ _ => nofun
  | wait _ hle ih =>
    exact fun key e he => ih key e (visible_of_le (Nat.div_le_div_right hle) he)
  | step op _ ih => exact op.typed c _ ih

/-- **TYPE and EXISTS agree** in every reachable state. -/
theorem type_none_iff {c : Codec} {now : Nat} {db : Db} (h : Reachable c now db) (key : Bytes) :
    keyTypeName key (visible (unix now) db) = .ok "none" ↔
      keyExists key (visible (unix now) db) = .ok false := by
  simp only [keyTypeName, keyExists, View.bind_apply, rawType_apply, View.get]
  cases he : (visible (unix now) db)[typeOfKeyGet key]? with
  | none => exact ⟨fun _ => rfl, fun _ => rfl⟩
  | some e =>
    obtain ⟨t, rfl⟩ := h.typed key e he
    cases t <;> simp [pure]

theorem type_none_iff_mSet : keyExists (ascii "k")
    (visible (unix 0) ((Op.mSet [("k", "v")]).run uncompressed 0 ∅).2) ≠ .ok false :=
  mt (type_none_iff (.step _ (.init 0)) _).mpr (by decide +kernel)

end BoltDB.Store
