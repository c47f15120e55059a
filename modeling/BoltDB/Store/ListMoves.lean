import BoltDB.Store.KeyLocks
import BoltDB.Store.ListSequence

/-!
# Moving an element

`LMOVE` and `RPOPLPUSH` pop at an end of one list and push at an end of another, or of the same one,
in one transaction. `listPopInTxn` answers an empty value where there is nothing to pop, and an empty
value is then not pushed: an element that is the empty string goes away.

Both commands first call `lockListKeysOrdered`, which locks the mutex of each of the two keys. A Go
mutex cannot be locked twice, so a call whose two keys share a mutex waits for itself and never
returns; the lists stay as they are and both keys stay locked.

* `MoveOp.call` — a call with its locks: `none` if it never returns.
* `Conserved` — what the command is for.
* `move_conserves_iff` — exactly the calls that do it.
-/

namespace BoltDB.Store.Lists

open Bytes KeyValue List Function

/-! ## Lists by key -/

/-- The values of the list of a key. A key without values is absent, emptied or of another type. -/
def ListAt (db : Db) (k : Bytes) (s : List Bytes) : Prop :=
  ∃ nodes, Chain db k nodes ∧ nodes.map Prod.snd = s ∧ (s ≠ [] → IsList db k)

/-- A push checks that the type record, if there is one, is that of a list. -/
def Accepts (db : Db) (k : Bytes) : Prop :=
  ∀ e, db[typeOfKeyGet k]? = some e → e.value = KeyType.list.name ∨ e.value = []

/-- The element at an end. -/
def endOf (fromLeft : Bool) (s : List Bytes) : Option Bytes :=
  if fromLeft then s.head? else s.getLast?

inductive MoveOp
  | lMove (fromLeft toLeft : Bool)
  | rPopLPush

namespace MoveOp

def fromLeft : MoveOp → Bool
  | lMove fromLeft _ => fromLeft
  | rPopLPush => false

def toLeft : MoveOp → Bool
  | lMove _ toLeft => toLeft
  | rPopLPush => true

/-- What the command does to the store, with the name for the node that it makes. -/
def exec (now : Nat) (source destination id : Bytes) : MoveOp → Run Err Bytes
  | lMove fromLeft toLeft => Lists.lMove now source destination fromLeft toLeft id
  | rPopLPush => Lists.rPopLPush now source destination id

/-- The command with its key locks, of a manager with `shards` mutexes. `none`: the call waits for a
mutex that it holds itself and never returns. -/
def call (shards now : Nat) (source destination id : Bytes) (op : MoveOp) (db : Db) :
    Option (Except Err Bytes × Db) :=
  if ((Acquire.lockListKeysOrdered [source, destination]).plan shards).Nodup then
    some (op.exec now source destination id db)
  else none

end MoveOp

section Move

variable (op : MoveOp) (source destination : Bytes) (c : Bytes → List Bytes)

/-- The lists without the element that is moved. -/
def taken : Bytes → List Bytes := Function.update c source (ListOp.without op.fromLeft 1 (c source))

/-- The lists with it at its new place. -/
def moved (v : Bytes) : Bytes → List Bytes := Function.update (taken op source c) destination
    (ListOp.withValues op.toLeft [v] (taken op source c destination))

/-- Both keys have their lists. -/
def Both (db : Db) : Prop := ∀ k ∈ [source, destination], ListAt db k (c k)

/-- The element that is at the end of the source goes to the end of the destination and is the reply;
with nothing to move, and after an error, both lists are as before. -/
def Moves (now : Nat) (db : Db) (out : Except Err Bytes × Db) : Prop :=
  match endOf op.fromLeft (c source) with
  | none => Both source destination c out.2
  | some v =>
    (Accepts (visible (unix now) db) destination →
      out.1 = .ok v ∧ Both source destination (moved op source destination c v) out.2) ∧
    (¬ Accepts (visible (unix now) db) destination →
      out.1 = .error .wrongType ∧ Both source destination c out.2)

/-- The call returns, and moves the element. -/
def Conserved (shards now : Nat) (id : Bytes) (db : Db) : Prop :=
  ∃ out, op.call shards now source destination id db = some out ∧
    Moves op source destination c now db out

end Move

/-! ## The locks -/

/-- The call gets its locks unless its keys are two keys of one mutex. -/
theorem nodup_plan_iff {shards : Nat} {source destination : Bytes} :
    ((Acquire.lockListKeysOrdered [source, destination]).plan shards).Nodup ↔
      (getShard shards source = getShard shards destination → source = destination) := by
  have hperm : (Acquire.lockListKeysOrdered [source, destination]).plan shards ~
      [source, destination].dedup.map (getShard shards) := (perm_insertionSort _ _).map _
  rw [hperm.nodup_iff]
  by_cases heq : source = destination
  · subst heq
    simp
  · rw [dedup_eq_self.mpr (by simpa using heq)]
    simp [heq]

theorem conserved_iff {shards now : Nat} {op : MoveOp} {source destination id : Bytes}
    {c : Bytes → List Bytes} {db : Db} :
    Conserved op source destination c shards now id db ↔
      (getShard shards source = getShard shards destination → source = destination) ∧
        Moves op source destination c now db (op.exec now source destination id db) := by
  rw [Conserved, MoveOp.call, ← nodup_plan_iff]
  split
  · next hlocks => simp [hlocks]
  · next hlocks => simp [hlocks]

/-! ## Pop and push -/

section Steps

variable {db db' : Db} {k : Bytes} {s : List Bytes}

theorem Represents.listAt (h : Represents db k s) : ListAt db k s := by
  obtain ⟨nodes, hchain, hseq, htype⟩ := h
  exact ⟨nodes, hchain, hseq, fun hne => htype.resolve_left fun hnil => hne hnil.1⟩

theorem ListAt.visible (h : ListAt db k s) (now : Nat) : ListAt (visible now db) k s := by
  obtain ⟨nodes, hchain, hseq, htype⟩ := h
  exact ⟨nodes, hchain.visible now, hseq, fun hne => (htype hne).visible now⟩

theorem ListAt.length_eq {s' : List Bytes} (h : ListAt db k s) (h' : ListAt db k s') :
    s.length = s'.length := by
  obtain ⟨nodes, hchain, rfl, -⟩ := h
  obtain ⟨nodes', hchain', rfl, -⟩ := h'
  have hmeta : metaOf nodes = metaOf nodes' :=
    Except.ok.inj (hchain.listGetMeta.symm.trans hchain'.listGetMeta)
  rw [length_map, length_map, ← toNat_metaOf_length hchain.short, hmeta,
    toNat_metaOf_length hchain'.short]

theorem ListAt.other {k' : Bytes} (h : ListAt db k' s) (honly : Only k db db') (hk : k' ≠ k) :
    ListAt db' k' s := by
  obtain ⟨nodes, hchain, hseq, htype⟩ := h
  exact ⟨nodes, hchain.other honly hk, hseq, fun hne => honly.grows k' (htype hne)⟩

/-- The pop of a move. A name that no node has stays free. -/
theorem ListAt.pop (h : ListAt db k s) (d : Bool) :
    endOf d s = none ∧ listPopInTxn d k db = .ok ([], db) ∨
      ∃ v db', endOf d s = some v ∧ listPopInTxn d k db = .ok (v, db') ∧
        ListAt db' k (ListOp.without d 1 s) ∧ Only k db db' ∧
        ∀ id, IsNodeID id → db[listKey k id]? = none → db'[listKey k id]? = none := by
  obtain ⟨nodes, hchain, rfl, htype⟩ := h
  have horiented : Chain db k (oriented d (oriented d nodes)) := by rwa [oriented_oriented]
  have hend : endOf d (nodes.map Prod.snd) = (oriented d nodes).head?.map Prod.snd := by
    cases d <;> simp [endOf, oriented]
  rw [hend, ← map_snd_oriented_drop]
  cases hnodes : oriented d nodes with
  | nil =>
    have hnil : nodes = [] := by rw [← oriented_oriented d nodes, hnodes, oriented_nil]
    subst hnil
    exact .inl ⟨rfl, popNode_nil hchain⟩
  | cons n rest =>
    rw [hnodes] at horiented
    obtain ⟨db', hrun, hchain', honly, hkeep⟩ := popNode_spec (deletes_deleteNode k) horiented
    refine .inr ⟨n.2, db', rfl, hrun, ⟨_, hchain', rfl, fun _ => honly.grows k (htype ?_)⟩, honly,
      fun id hid hnone => ?_⟩
    · rintro hnil
      rw [map_eq_nil_iff.mp hnil, oriented_nil] at hnodes
      cases hnodes
    · have hvalue := (nodes_oriented.mp horiented.body).value n mem_cons_self
      rw [hkeep id hid, hnone]
      rintro rfl
      cases hnone.symm.trans hvalue

/-- The push of a move. -/
theorem ListAt.pushTxn (h : ListAt db k s) (hok : Accepts db k) (toLeft : Bool) {new : List Node}
    (hfresh : Fresh db k new) (hroom : s.length + new.length < 2 ^ 63) :
    ∃ n db', pushTxn toLeft k new db = .ok (n, db') ∧
      ListAt db' k (ListOp.withValues toLeft (new.map Prod.snd) s) ∧
      ∀ k' s', k' ≠ k → ListAt db k' s' → ListAt db' k' s' := by
  obtain ⟨nodes, hchain, rfl, -⟩ := h
  have hfresh' := hfresh.setType k ⟨KeyType.list.name, 0⟩
  have hlist : IsList (db.insert (typeOfKeyGet k) ⟨KeyType.list.name, 0⟩) k := by
    rw [IsList, getElem?_insert_ite, if_pos rfl]
  rw [length_map] at hroom
  obtain ⟨db', hrun, hchain', honly⟩ :=
    (hchain.setType k _).pushNodes toLeft hroom hfresh'.ids hfresh'.nodup hfresh'.absent
  have hcheck : checkKeyTypeInline k .list db = .ok () := (checkKeyTypeInline_apply ..).trans (if_pos hok)
  rw [Lists.pushTxn, Txn.lift_bind_ok hcheck, Txn.set_bind]
  refine ⟨_, db', hrun, ⟨_, hchain', map_snd_withNodes toLeft new nodes,
    fun _ => honly.grows k hlist⟩, fun k' s' hk hother => ?_⟩
  obtain ⟨nodes', hother, hseq, htype⟩ := hother
  exact ⟨nodes', (hother.setType k _).other honly hk, hseq,
    fun hne => honly.grows k' ((htype hne).setType k)⟩

end Steps

/-! ## The two together -/

section Both

variable {op : MoveOp} {source destination id : Bytes} {c : Bytes → List Bytes} {db : Db} {now : Nat}

theorem Both.visible (h : Both source destination c db) (now : Nat) :
    Both source destination c (visible now db) := fun k hk => (h k hk).visible now

theorem Both.atSource (h : Both source destination c db) : ListAt db source (c source) :=
  h source mem_cons_self

theorem Both.atDestination (h : Both source destination c db) :
    ListAt db destination (c destination) := h destination (by simp)

/-- The transaction of both commands, after the type of the source has been looked at. -/
def popPush (op : MoveOp) (source destination id : Bytes) : Txn Err Bytes :=
  listPopInTxn op.fromLeft source >>= pushPopped op.toLeft destination id

theorem length_taken_le (op : MoveOp) (source destination : Bytes) (c : Bytes → List Bytes) :
    (taken op source c destination).length ≤ (c destination).length := by
  by_cases hk : destination = source
  · subst hk
    rw [taken, ListOp.without]
    split <;> simp
  · rw [taken, update_of_ne hk]

/-- **A move has four outcomes**: nothing to move, an empty element that goes away, an element that
arrives, and an error at the destination. -/
theorem Both.popPush (h : Both source destination c db) (op : MoveOp)
    (hid : Fresh db destination [(id, [])]) (hroom : (c destination).length + 1 < 2 ^ 63) :
    endOf op.fromLeft (c source) = none ∧ popPush op source destination id db = .ok ([], db) ∨
    ∃ v, endOf op.fromLeft (c source) = some v ∧
      ((v = [] ∧ ∃ db', popPush op source destination id db = .ok ([], db') ∧
          Both source destination (taken op source c) db') ∨
        (v ≠ [] ∧ Accepts db destination ∧ ∃ db', popPush op source destination id db = .ok (v, db') ∧
          Both source destination (moved op source destination c v) db') ∨
        (v ≠ [] ∧ ¬ Accepts db destination ∧
          popPush op source destination id db = .error .wrongType)) := by
  rw [Lists.popPush, Txn.bind_apply]
  rcases h.atSource.pop op.fromLeft with ⟨hend, hpop⟩ | ⟨v, db₁, hend, hpop, hsource, honly, habsent⟩
  · rw [hpop]
    exact .inl ⟨hend, rfl⟩
  refine .inr ⟨v, hend, ?_⟩
  rw [hpop]
  have htaken : Both source destination (taken op source c) db₁ := by
    intro k hk
    by_cases hks : k = source
    · subst hks
      rwa [taken, update_self]
    · rw [taken, update_of_ne hks]
      exact (h k hk).other honly hks
  by_cases hv : v = []
  · subst hv
    exact .inl ⟨rfl, db₁, rfl, htaken⟩
  have haccepts : Accepts db₁ destination ↔ Accepts db destination := by
    rw [Accepts, Accepts, honly.types]
  show _ ∨ _ ∧ _ ∧ (∃ db', pushPopped op.toLeft destination id v db₁ = .ok (v, db') ∧ _) ∨
    _ ∧ _ ∧ pushPopped op.toLeft destination id v db₁ = _
  rw [pushPopped, if_neg hv, Txn.bind_apply]
  by_cases hok : Accepts db destination
  · have hlen := length_taken_le op source destination c
    obtain ⟨n, db₂, hpush, hlist, hother⟩ := htaken.atDestination.pushTxn (haccepts.mpr hok) op.toLeft
      (hid.popped honly habsent v) (by rw [length_singleton]; omega)
    rw [hpush]
    refine .inr (.inl ⟨hv, hok, db₂, rfl, fun k hk => ?_⟩)
    by_cases hkd : k = destination
    · subst hkd
      rwa [moved, update_self]
    · rw [moved, update_of_ne hkd]
      exact hother k _ hkd (htaken k hk)
  · have hcheck : checkKeyTypeInline destination .list db₁ = .error .wrongType :=
      (checkKeyTypeInline_apply ..).trans (if_neg (mt haccepts.mp hok))
    rw [Lists.pushTxn, Txn.lift_bind_error hcheck]
    exact .inr (.inr ⟨hv, hok, rfl⟩)

/-- `LMOVE` also refuses a source of another type. -/
theorem Both.exec (h : Both source destination c db) (op : MoveOp) (id : Bytes) (now : Nat) :
    op.exec now source destination id db = update now (Lists.popPush op source destination id) db ∨
      endOf op.fromLeft (c source) = none ∧ (op.exec now source destination id db).2 = db := by
  cases op with
  | rPopLPush => exact .inl rfl
  | lMove fromLeft toLeft =>
    have hexec : MoveOp.exec now source destination id (.lMove fromLeft toLeft) db =
        update now (checkKeyType source .list >>= fun _ => Lists.popPush (.lMove fromLeft toLeft)
          source destination id) db := rfl
    have hcheck := checkKeyType_apply .list source (KeyValue.visible (unix now) db)
    obtain ⟨-, -, -, htype⟩ := (h.visible (unix now)).atSource
    split at hcheck
    · refine .inl (hexec.trans ?_)
      rw [update, update, Run.update, Run.update, Txn.lift_bind_ok hcheck]
    · next hwrong =>
      refine .inr ⟨?_, ?_⟩
      · have hnil : c source = [] := by
          by_contra hne
          refine hwrong fun e he => ?_
          cases (htype hne).symm.trans he
          rfl
        rw [hnil]
        cases fromLeft <;> rfl
      · rw [hexec, update, Run.update_of_error (Txn.lift_bind_error hcheck)]

/-- An element that is the empty string is popped, but not pushed. -/
theorem not_moves_of_empty (h : Both source destination c db)
    (hid : Fresh db destination [(id, [])]) (hroom : (c destination).length + 1 < 2 ^ 63)
    (hend : endOf op.fromLeft (c source) = some []) :
    ¬ Moves op source destination c now db (op.exec now source destination id db) := by
  have hv := h.visible (unix now)
  rw [Moves, hend]
  rintro ⟨haccepts, hrefuses⟩
  rcases h.exec op id now with hexec | ⟨hnone, -⟩
  swap
  · cases hend.symm.trans hnone
  rcases hv.popPush op (hid.visible _) hroom with ⟨hnone, -⟩ | ⟨v, hsome, hrun⟩
  · cases hend.symm.trans hnone
  cases hend.symm.trans hsome
  obtain ⟨-, db', hrun, htaken⟩ := hrun.resolve_right fun hne => by
    rcases hne with ⟨hne, -⟩ | ⟨hne, -⟩ <;> exact hne rfl
  rw [hexec, update_snd_of_ok hrun] at haccepts hrefuses
  by_cases hok : Accepts (KeyValue.visible (unix now) db) destination
  · have hlen := htaken.atDestination.length_eq (haccepts hok).2.atDestination
    rw [moved, ListOp.withValues] at hlen
    split at hlen <;> simp at hlen
  · cases (hrefuses hok).1

/-- Any other element arrives. -/
theorem moves_of_ne_empty (h : Both source destination c db)
    (hid : Fresh db destination [(id, [])]) (hroom : (c destination).length + 1 < 2 ^ 63)
    (hend : endOf op.fromLeft (c source) ≠ some []) :
    Moves op source destination c now db (op.exec now source destination id db) := by
  have hv := h.visible (unix now)
  rw [Moves]
  rcases h.exec op id now with hexec | ⟨hnone, hsame⟩
  swap
  · rw [hnone, hsame]
    exact h
  rw [hexec]
  rcases hv.popPush op (hid.visible _) hroom with ⟨hnone, hrun⟩ | ⟨v, hsome, hrun⟩
  · rw [hnone, update_snd_of_ok hrun]
    exact hv
  rw [hsome]
  rcases hrun with ⟨rfl, -⟩ | ⟨-, hok, db', hrun, hmoved⟩ | ⟨-, hok, hrun⟩
  · exact absurd hsome hend
  · rw [update_snd_of_ok hrun]
    exact ⟨fun _ => ⟨rfl, hmoved⟩, fun hwrong => absurd hok hwrong⟩
  · rw [update, Run.update_of_error hrun]
    exact ⟨fun hright => absurd hright hok, fun _ => ⟨rfl, h⟩⟩

end Both

/-- A store with one list. -/
def oneList (values : List Bytes) : Db := ((ListOp.push false values (nodeNames 0)).exec 0 "k" ∅).2

theorem listAt_oneList {values : List Bytes}
    (h : (ListOp.push false values (nodeNames 0)).Supplied ∅ "k")
    (hlen : (withIDs (nodeNames 0) values).length < 2 ^ 63) :
    ListAt (oneList values) "k" values := by
  have hexec := (absent_empty "k").represents.exec 0 h
    (show InReach _ ⟨∅, []⟩ _ from ⟨trivial, by simpa [ListOp.new] using hlen⟩)
  exact hexec.listAt

end BoltDB.Store.Lists
