import BoltDB.Lib.Transition
import BoltDB.Store.ListContents

/-!
# A list is a sequence

LPUSH, RPUSH, LPUSHX, RPUSHX, LPOP, RPOP, LMPOP and LSET on one key, against the sequence of values
that they stand for. `Represents` is the invariant: the nodes between the start and the end carry the
sequence, and only the links between two of them count. LLEN, LINDEX and LRANGE then answer from the
sequence for every index and every pair of bounds.

A list that has been emptied keeps its `TYPE_` record. LPUSHX and RPUSHX look at nothing else, so they
push where a list is no longer there; `list_refines_sequence` leaves out that case. It also leaves out
an LMPOP with a count for which the slice of the results cannot be made (`TooMany`): such a call panics
and pops nothing.
-/

namespace BoltDB.Store.Lists

open Bytes KeyValue Transition List

/-! ## Operations -/

/-- The operations, with the names for the nodes they make. -/
inductive ListOp
  | push (toLeft : Bool) (values : List Bytes) (ids : Nat → Bytes)
  | pushX (toLeft : Bool) (values : List Bytes) (ids : Nat → Bytes)
  | pop (fromLeft : Bool)
  | mPop (fromLeft : Bool) (count : Int64)
  | set (index : Int64) (value : Bytes)

namespace ListOp

/-- What an operation does to the store. -/
def exec (now : Nat) (k : Bytes) : ListOp → Run Err Unit
  | push toLeft values ids => void (Lists.push toLeft now k values ids)
  | pushX toLeft values ids => void (Lists.pushX toLeft now k values ids)
  | pop fromLeft => void (Lists.pop fromLeft now k)
  | mPop fromLeft count => void (lMPop now fromLeft count [k])
  | set index value => lSet now k index value

/-- Values added at an end of a sequence, one after the other. -/
def withValues (toLeft : Bool) (values s : List Bytes) : List Bytes :=
  if toLeft then values.reverse ++ s else s ++ values

/-- A sequence without its first or last elements. -/
def without (fromLeft : Bool) (n : Nat) (s : List Bytes) : List Bytes :=
  if fromLeft then s.drop n else s.take (s.length - n)

/-- What an operation does to a sequence. A key without elements does not exist. -/
def apply (s : List Bytes) : ListOp → List Bytes
  | push toLeft values _ => withValues toLeft values s
  | pushX toLeft values _ => if s = [] then [] else withValues toLeft values s
  | pop fromLeft => without fromLeft 1 s
  | mPop fromLeft count => without fromLeft count.toInt.toNat s
  | set index value =>
    let i := fromEnd s.length index.toInt
    if i < 0 then s else s.set i.toNat value

/-- The nodes that an operation makes. -/
def new : ListOp → List Node
  | push _ values ids | pushX _ values ids => withIDs ids values
  | _ => []

/-- At least one value is pushed, at least one popped, and new nodes have new names. -/
def Supplied (db : Db) (k : Bytes) (op : ListOp) : Prop := Fresh db k op.new ∧
    match op with
    | push _ values _ | pushX _ values _ => values ≠ []
    | mPop _ count => 0 < count
    | _ => True

instance (db : Db) (k : Bytes) (op : ListOp) : Decidable (op.Supplied db k) := by
  unfold Supplied
  cases op <;> infer_instance

end ListOp

/-! ## Runs -/

/-- A store, and the sequence that the list should be. -/
structure Tracked where
  db : Db
  seq : List Bytes

/-- An operation at a time, on both. -/
def Tracked.step (k : Bytes) (t : Tracked) (a : Nat × ListOp) : Option Tracked :=
  some ⟨(a.2.exec a.1 k t.db).2, a.2.apply t.seq⟩

/-- The condition on a step: LPUSHX and RPUSHX do not come upon a list that has been emptied, LMPOP on
a list with elements does not ask for more than a slice can hold, and the list stays below 2^63
elements. -/
def InReach (k : Bytes) (t : Tracked) (op : ListOp) : Prop := (match op with
    | .pushX _ _ _ => t.seq ≠ [] ∨ t.db[typeOfKeyGet k]? = none
    | .mPop _ count => t.seq = [] ∨ ¬ TooMany count
    | _ => True) ∧ t.seq.length + op.new.length < 2 ^ 63

instance (k : Bytes) (t : Tracked) (op : ListOp) : Decidable (InReach k t op) := by
  unfold InReach
  cases op <;> infer_instance

/-- No record of the list, and no type. -/
def Absent (db : Db) (k : Bytes) : Prop :=
  db[typeOfKeyGet k]? = none ∧ ∀ p : Part, p.Ok → db[p.key k]? = none

/-- LLEN, LINDEX and LRANGE at a time answer from a sequence. `LIndex` answers an empty value where
`getNodeByIndex` finds no node. -/
structure Answers (db : Db) (k : Bytes) (s : List Bytes) (now : Nat) : Prop where
  lLen : ∃ n, (view now (lLen k) db).1 = .ok n ∧ n.toNat = s.length
  getNodeByIndex : ∀ index, ∃ node, (view now (getNodeByIndex k index) db).1 = .ok node ∧
    node.map Prod.snd = nth s index.toInt
  lIndex : ∀ index, (view now (lIndex k index) db).1 = .ok ((nth s index.toInt).getD [])
  lRange : ∀ start stop,
    (view now (lRange k start stop) db).1 = .ok (slice s start.toInt stop.toInt)

/-! ## The invariant -/

/-- The records of a list stand for a sequence of values. -/
def Represents (db : Db) (k : Bytes) (s : List Bytes) : Prop :=
  ∃ nodes, Chain db k nodes ∧ nodes.map Prod.snd = s ∧
    (s = [] ∧ db[typeOfKeyGet k]? = none ∨ IsList db k)

section Represents

variable {db db' : Db} {k : Bytes} {s : List Bytes}

theorem Absent.represents (h : Absent db k) : Represents db k [] :=
  ⟨[], ⟨nodes_nil, by simp, .inl ⟨rfl, h.2 .length trivial⟩⟩, rfl, .inl ⟨rfl, h.1⟩⟩

theorem Represents.visible (h : Represents db k s) (now : Nat) : Represents (visible now db) k s := by
  obtain ⟨nodes, hchain, hseq, htype⟩ := h
  refine ⟨nodes, hchain.visible now, hseq, ?_⟩
  rcases htype with ⟨hnil, hnone⟩ | hlist
  · refine .inl ⟨hnil, ?_⟩
    rw [getElem?_visible, hnone]
    rfl
  · exact .inr (hlist.visible now)

theorem Represents.type_ok (h : Represents db k s) :
    ∀ e, db[typeOfKeyGet k]? = some e → e.value = KeyType.list.name := by
  obtain ⟨nodes, -, -, ⟨-, hnone⟩ | hlist⟩ := h
  · intro e he
    cases hnone.symm.trans he
  · intro e he
    cases hlist.symm.trans he
    rfl

/-- **Every reading answers from the sequence.** -/
theorem Represents.answers (h : Represents db k s) (now : Nat) : Answers db k s now := by
  have hv := h.visible (unix now)
  have htype := hv.type_ok
  obtain ⟨nodes, hchain, rfl, -⟩ := hv
  refine ⟨⟨_, hchain.lLen htype, ?_⟩, fun index => ⟨_, hchain.getNodeByIndex index, ?_⟩,
    hchain.lIndex htype, hchain.lRange htype⟩
  · rw [length_map]
    exact toNat_metaOf_length hchain.short
  · rw [nth_map]

/-- Elements were taken away or changed, the type was not. -/
theorem Represents.change {nodes nodes' : List Node}
    (htype : nodes.map Prod.snd = [] ∧ db[typeOfKeyGet k]? = none ∨ IsList db k)
    (hnil : nodes = [] → nodes' = []) (honly : Only k db db') (hchain : Chain db' k nodes') :
    Represents db' k (nodes'.map Prod.snd) := by
  refine ⟨nodes', hchain, rfl, ?_⟩
  rcases htype with ⟨hempty, hnone⟩ | hlist
  · refine .inl ⟨?_, (honly.types k).trans hnone⟩
    rw [hnil (map_eq_nil_iff.mp hempty)]
    rfl
  · exact .inr (honly.grows k hlist)

theorem Represents.view_checkKeyType {now : Nat} (h : Represents (KeyValue.visible (unix now) db) k s) :
    view now (checkKeyType k .list) db = (.ok (), db) := by
  show (checkKeyType k .list (KeyValue.visible (unix now) db), db) = _
  rw [checkKeyType_apply, if_pos h.type_ok]

/-! ## One operation -/

theorem update_snd_of_ok {α : Type} {now : Nat} {m : Txn Err α} {a : α}
    (h : m (visible (unix now) db) = .ok (a, db')) : update now m db = (.ok a, db') :=
  Run.update_eq_ok.mpr h

theorem map_snd_withNodes (toLeft : Bool) (new nodes : List Node) :
    (withNodes toLeft new nodes).map Prod.snd =
      ListOp.withValues toLeft (new.map Prod.snd) (nodes.map Prod.snd) := by
  cases toLeft <;> simp [withNodes, ListOp.withValues]

theorem map_snd_oriented_drop (d : Bool) (n : Nat) (nodes : List Node) :
    (oriented d ((oriented d nodes).drop n)).map Prod.snd =
      ListOp.without d n (nodes.map Prod.snd) := by
  cases d with
  | true => simp [oriented, ListOp.without]
  | false => simp [oriented, ListOp.without, drop_reverse]

section Represented

variable (h : Represents db k s)

include h

theorem Represents.pushNodes (hlist : IsList db k) (toLeft : Bool) {new : List Node}
    (hfresh : Fresh db k new) (hroom : s.length + new.length < 2 ^ 63) :
    ∃ n db', pushNodes toLeft k new db = .ok (n, db') ∧
      Represents db' k (ListOp.withValues toLeft (new.map Prod.snd) s) := by
  obtain ⟨nodes, hchain, rfl, -⟩ := h
  rw [length_map] at hroom
  obtain ⟨db', hrun, hchain', honly⟩ :=
    hchain.pushNodes toLeft hroom hfresh.ids hfresh.nodup hfresh.absent
  exact ⟨_, db', hrun, _, hchain', map_snd_withNodes toLeft new nodes, .inr (honly.grows k hlist)⟩

theorem Represents.setType :
    Represents (db.insert (typeOfKeyGet k) ⟨KeyType.list.name, 0⟩) k s := by
  obtain ⟨nodes, hchain, hseq, -⟩ := h
  refine ⟨nodes, hchain.setType k _, hseq, .inr ?_⟩
  rw [IsList, getElem?_insert_ite, if_pos rfl]

theorem Represents.pushTxn (toLeft : Bool) {new : List Node} (hfresh : Fresh db k new)
    (hroom : s.length + new.length < 2 ^ 63) :
    ∃ n db', pushTxn toLeft k new db = .ok (n, db') ∧
      Represents db' k (ListOp.withValues toLeft (new.map Prod.snd) s) := by
  have hcheck : checkKeyTypeInline k .list db = .ok () := by
    rw [checkKeyTypeInline_apply, if_pos fun e he => .inl (h.type_ok e he)]
  rw [Lists.pushTxn, Txn.lift_bind_ok hcheck, Txn.set_bind]
  refine h.setType.pushNodes ?_ toLeft (hfresh.setType k _) hroom
  rw [IsList, getElem?_insert_ite, if_pos rfl]

theorem Represents.pushXTxn (toLeft : Bool) {new : List Node}
    (hok : s ≠ [] ∨ db[typeOfKeyGet k]? = none) (hfresh : Fresh db k new)
    (hroom : s.length + new.length < 2 ^ 63) :
    ∃ n db', pushXTxn toLeft k new db = .ok (n, db') ∧
      Represents db' k (if s = [] then [] else ListOp.withValues toLeft (new.map Prod.snd) s) := by
  have hget : (Txn.get (typeOfKeyGet k) : Txn Err _) db = .ok (db[typeOfKeyGet k]?, db) := rfl
  rw [Lists.pushXTxn, Txn.bind_apply, hget]
  obtain ⟨nodes, hchain, hseq, ⟨hnil, hnone⟩ | hlist⟩ := id h
  · refine ⟨0, db, ?_, ?_⟩
    · rw [hnone]
      rfl
    · rw [if_pos hnil, ← hnil]
      exact h
  · have hne : s ≠ [] := hok.resolve_right fun hnone => by cases hnone.symm.trans hlist
    rw [if_neg hne]
    obtain ⟨n, db', hrun, hrep⟩ := h.pushNodes hlist toLeft hfresh hroom
    refine ⟨n, db', ?_, hrep⟩
    rw [hlist]
    show (if KeyType.list.name = KeyType.list.name then _ else _ : Txn Err UInt64) db = _
    rw [if_pos rfl]
    exact hrun

theorem Represents.popTxn (d : Bool) :
    ∃ v db', popTxn d k db = .ok (v, db') ∧ Represents db' k (ListOp.without d 1 s) := by
  obtain ⟨nodes, hchain, rfl, htype⟩ := id h
  rw [← map_snd_oriented_drop]
  have horiented : Chain db k (oriented d (oriented d nodes)) := by rwa [oriented_oriented]
  cases hnodes : oriented d nodes with
  | nil =>
    have hnil : nodes = [] := by rw [← oriented_oriented d nodes, hnodes, oriented_nil]
    subst hnil
    exact ⟨[], db, popNode_nil hchain, by simpa using h⟩
  | cons n rest =>
    rw [hnodes] at horiented
    obtain ⟨db', hrun, hchain', honly, -⟩ := popNode_spec (deletes_removeNode k) horiented
    refine ⟨n.2, db', hrun, ?_⟩
    rw [drop_succ_cons, drop_zero]
    refine Represents.change htype (fun hnil => ?_) honly hchain'
    rw [hnil, oriented_nil] at hnodes
    cases hnodes

theorem Represents.lMPopTxn (d : Bool) {count : Int64} (hcount : s = [] ∨ ¬ TooMany count) :
    ∃ vs db', lMPopTxn d k count db = .ok (vs, db') ∧
      Represents db' k (ListOp.without d count.toInt.toNat s) := by
  obtain ⟨nodes, hchain, rfl, htype⟩ := id h
  rcases hcount with hnil | hcount
  · obtain rfl := map_eq_nil_iff.mp hnil
    refine ⟨[], db, ?_, by cases d <;> simpa [ListOp.without] using h⟩
    rw [Lists.lMPopTxn, Txn.lift_bind_ok hchain.listGetMeta]
    exact congrFun (if_pos (show (metaOf []).length = 0 from rfl)) db
  have horiented : Chain db k (oriented d (oriented d nodes)) := by rwa [oriented_oriented]
  obtain ⟨db', hrun, hchain', honly⟩ := horiented.lMPopTxn hcount
  refine ⟨_, db', hrun, ?_⟩
  rw [← map_snd_oriented_drop]
  refine Represents.change htype (fun hnil => ?_) honly hchain'
  rw [hnil, oriented_nil, drop_nil, oriented_nil]

/-! ### Setting a value -/

end Represented

theorem metaOf_congr {nodes nodes' : List Node} (h : nodes'.map Prod.fst = nodes.map Prod.fst) :
    metaOf nodes' = metaOf nodes := by
  have hlen : nodes'.length = nodes.length := by simpa using congrArg List.length h
  have hfirst : firstID nodes' = firstID nodes := by
    rw [firstID, firstID, ← head?_map, ← head?_map, h]
  have hlast : lastID nodes' = lastID nodes := by
    rw [lastID, lastID, ← getLast?_map, ← getLast?_map, h]
  rw [metaOf, metaOf, hlen, hfirst, hlast]

/-- The chain with another value in one node. -/
theorem Chain.setValue {nodes : List Node} (h : Chain db k nodes) {i : Nat} {n : Node}
    (hn : nodes[i]? = some n) (v : Bytes) :
    Chain (db.insert (listKey k n.1) ⟨v, 0⟩) k (nodes.set i (n.1, v)) := by
  have hnode : IsNodeID n.1 := h.body.ids n (mem_of_getElem? hn)
  obtain ⟨hi, hni⟩ := List.getElem?_eq_some_iff.mp hn
  have hfst : (nodes.set i (n.1, v)).map Prod.fst = nodes.map Prod.fst := by
    have hself : n.1 = (nodes.map Prod.fst).get ⟨i, by rwa [length_map]⟩ := by
      rw [get_eq_getElem, getElem_map, hni]
    rw [map_set, hself, get_eq_getElem, set_getElem_self]
  have hget : ∀ p : Part, p.Ok → p ≠ .value n.1 →
      (db.insert (listKey k n.1) ⟨v, 0⟩)[p.key k]? = db[p.key k]? := by
    intro p hp hne
    exact (Part.getElem?_insert_key (p := .value n.1) hnode hp db k _).trans (if_neg hne)
  have hnew : (n.1, v) ∈ nodes.set i (n.1, v) := mem_set hi (n.1, v)
  have hnodup : ((nodes.set i (n.1, v)).map Prod.fst).Nodup := hfst ▸ h.body.nodup
  have hid : ∀ m ∈ nodes.set i (n.1, v), IsNodeID m.1 := by
    intro m hm
    rcases mem_or_eq_of_mem_set hm with hm | rfl
    · exact h.body.ids m hm
    · exact hnode
  refine ⟨⟨hid, hnodup, fun m hm => ?_, ?_⟩, by simpa using h.short, ?_⟩
  · by_cases hsame : m.1 = n.1
    · obtain rfl := inj_on_of_nodup_map hnodup hm hnew hsame
      rw [getElem?_insert_ite, if_pos rfl]
    · have hold := (mem_or_eq_of_mem_set hm).resolve_right fun heq => hsame (heq ▸ rfl)
      rw [← h.body.value m hold]
      exact hget (.value m.1) (h.body.ids m hold) fun heq => hsame (Part.value.inj heq)
  · -- the links depend on the names of the nodes only
    have hlinks := h.body.linked
    rw [← isChain_map (f := Prod.fst) (R := fun a b => db[linkKey true k a]? = some ⟨b, 0⟩ ∧
      db[linkKey (!true) k b]? = some ⟨a, 0⟩), ← hfst, isChain_map] at hlinks
    refine isChain_congr hnodup hlinks fun a ha b hb _ _ hab => ?_
    exact ⟨(hget (.link true a.1) (hid a ha) (by simp)).trans hab.1,
      (hget (.link false b.1) (hid b hb) (by simp)).trans hab.2⟩
  · rw [metaOf_congr hfst, hget .length trivial (by simp), hget .start trivial (by simp),
      hget .stop trivial (by simp)]
    rcases h.header with ⟨rfl, -⟩ | hheader
    · simp at hi
    · exact .inr hheader

theorem only_setValue {id : Bytes} (hid : IsNodeID id) (v : Bytes) :
    Only k db (db.insert (listKey k id) ⟨v, 0⟩) := (Only.refl k db).insert (.value id) hid _

/-- `LSET` sets the element at its index, or fails. -/
theorem Represents.lSetTxn (h : Represents db k s) (index : Int64) (v : Bytes) :
    (∃ e, lSetTxn k index v db = .error e ∧ (ListOp.set index v).apply s = s) ∨
      ∃ db', lSetTxn k index v db = .ok ((), db') ∧
        Represents db' k ((ListOp.set index v).apply s) := by
  obtain ⟨nodes, hchain, rfl, htype⟩ := h
  rw [Lists.lSetTxn, Txn.lift_bind_ok (hchain.getNodeByIndex index)]
  simp only [ListOp.apply, length_map]
  cases hnth : nth nodes index.toInt with
  | none =>
    refine .inl ⟨_, rfl, ?_⟩
    simp only [nth] at hnth
    split
    · rfl
    · next hpos =>
      rw [if_neg hpos] at hnth
      exact set_eq_of_length_le (by rw [length_map]; exact List.getElem?_eq_none_iff.mp hnth)
  | some n =>
    simp only [nth] at hnth
    split at hnth
    · cases hnth
    · next hpos =>
      have hmem := mem_of_getElem? hnth
      refine .inr ⟨db.insert (listKey k n.1) ⟨v, 0⟩, ?_, ?_⟩
      · show (if n.1 = [] then _ else _ : Txn Err Unit) db = _
        rw [if_neg (hchain.body.ids n hmem).ne_nil]
        rfl
      · rw [if_neg hpos, ← map_set (f := Prod.snd) (a := (n.1, v))]
        refine Represents.change htype (fun hnil => ?_) (only_setValue (hchain.body.ids n hmem) v)
          (hchain.setValue hnth v)
        rw [hnil]
        rfl

/-- **One operation.** What the records stand for changes as the sequence does. -/
theorem Represents.exec (h : Represents db k s) (now : Nat) {op : ListOp} (hsup : op.Supplied db k)
    (hok : InReach k ⟨db, s⟩ op) : Represents (op.exec now k db).2 k (op.apply s) := by
  have hv := h.visible (unix now)
  have hfresh := hsup.1.visible (unix now)
  obtain ⟨hreach, hroom⟩ := hok
  cases op with
  | push toLeft values ids =>
    change Fresh _ k (withIDs ids values) at hfresh
    change s.length + (withIDs ids values).length < 2 ^ 63 at hroom
    obtain ⟨n, db', hrun, hrep⟩ := hv.pushTxn toLeft hfresh hroom
    rw [map_snd_withIDs] at hrep
    rw [ListOp.exec, void_snd, Lists.push, Run.bind_of_ok (update_snd_of_ok hrun)]
    split <;> exact hrep
  | pushX toLeft values ids =>
    change Fresh _ k (withIDs ids values) at hfresh
    change s.length + (withIDs ids values).length < 2 ^ 63 at hroom
    have hpushX : s ≠ [] ∨ (KeyValue.visible (unix now) db)[typeOfKeyGet k]? = none := by
      refine hreach.imp_right fun hnone => ?_
      rw [getElem?_visible, show db[typeOfKeyGet k]? = none from hnone]
      rfl
    obtain ⟨n, db', hrun, hrep⟩ := hv.pushXTxn toLeft hpushX hfresh hroom
    rw [map_snd_withIDs] at hrep
    rw [ListOp.exec, void_snd, Lists.pushX, update_snd_of_ok hrun]
    exact hrep
  | pop fromLeft =>
    obtain ⟨v, db', hrun, hrep⟩ := hv.popTxn fromLeft
    rw [ListOp.exec, void_snd, Lists.pop, Run.bind_of_ok hv.view_checkKeyType, update_snd_of_ok hrun]
    exact hrep
  | mPop fromLeft count =>
    obtain ⟨vs, db', hrun, hrep⟩ := hv.lMPopTxn fromLeft hreach
    rw [ListOp.exec, void_snd, lMPop, Run.bind_of_ok hv.view_checkKeyType,
      Run.bind_of_ok (update_snd_of_ok hrun)]
    split <;> exact hrep
  | set index value =>
    rw [ListOp.exec, lSet]
    rcases hv.lSetTxn index value with ⟨e, hrun, happly⟩ | ⟨db', hrun, hrep⟩
    · rw [update, Run.update_of_error hrun, happly]
      exact h
    · rw [update_snd_of_ok hrun]
      exact hrep

end Represents

/-- **Lists refine sequences.** After every run of operations on a key that was absent, LLEN, LINDEX
for every index and LRANGE for every pair of bounds answer from the sequence that the operations give. -/
theorem list_refines_sequence {k : Bytes} {db : Db} {as : List (Nat × ListOp)} {t : Tracked}
    (habsent : Absent db k)
    (hok : Meets (Tracked.step k) (fun t a => a.2.Supplied t.db k ∧ InReach k t a.2) ⟨db, []⟩ as)
    (hrun : run (Tracked.step k) ⟨db, []⟩ as = some t) (now : Nat) :
    Answers t.db k t.seq now := by
  have hstep : ∀ (t : Tracked) (a : Nat × ListOp) (t' : Tracked), Represents t.db k t.seq →
      a.2.Supplied t.db k ∧ InReach k t a.2 → Tracked.step k t a = some t' →
      Represents t'.db k t'.seq := by
    intro t a t' h hok hs
    cases hs
    exact h.exec a.1 hok.1 hok.2
  have hinv : Represents t.db k t.seq := run_invariant hstep habsent.represents hok hrun
  exact hinv.answers now

/-- Names for nodes made at a step. -/
def nodeNames (step : UInt8) (i : Nat) : Bytes := [110, 48 + step, 48 + UInt8.ofNat i]

/-- Pushes at both ends, pops at both ends, a set, and an emptied list filled again. -/
def pushesAndPops : List (Nat × ListOp) :=
  [(0, .pushX true ["no"] (nodeNames 0)), (0, .push false ["a", []] (nodeNames 1)),
    (0, .push true ["b", "c"] (nodeNames 2)), (0, .set (-1) "d"), (0, .pop true),
    (0, .mPop false 7), (0, .push true ["e"] (nodeNames 3)),
    (0, .pushX false ["f"] (nodeNames 4))]

theorem absent_empty (k : Bytes) : Absent ∅ k := ⟨by simp, fun p _ => by simp⟩

theorem list_refines_sequence_pushesAndPops :
    ∃ t, run (Tracked.step (ascii "k")) ⟨∅, []⟩ pushesAndPops = some t ∧
      t.seq = [ascii "e", ascii "f"] ∧ ∀ now, Answers t.db (ascii "k") t.seq now := by
  obtain ⟨t, hrun, hseq⟩ : ∃ t, run (Tracked.step "k") ⟨∅, []⟩ pushesAndPops = some t ∧
      t.seq = ["e", "f"] := run_end (by decide +kernel)
  exact ⟨t, hrun, hseq, list_refines_sequence (absent_empty _) (by decide +kernel) hrun⟩

/-- LPUSH, LPOP and LPUSHX. -/
def emptiedThenPushX : List (Nat × ListOp) := [(0, .push true ["a"] (nodeNames 0)), (0, .pop true),
    (0, .pushX true ["b"] (nodeNames 1))]

/-- LPUSHX pushes onto a list that has been emptied. -/
theorem pushX_onto_emptied :
    ∃ t, run (Tracked.step (ascii "k")) ⟨∅, []⟩ emptiedThenPushX = some t ∧
      Meets (Tracked.step (ascii "k")) (fun t a => a.2.Supplied t.db (ascii "k")) ⟨∅, []⟩
        emptiedThenPushX ∧ ¬ Answers t.db (ascii "k") t.seq 0 := by
  obtain ⟨t, hrun, hseq, hlen⟩ : ∃ t,
      run (Tracked.step "k") ⟨∅, []⟩ emptiedThenPushX = some t ∧ t.seq = [] ∧
      (view 0 (lLen "k") t.db).1 = .ok 1 := run_end (by decide +kernel)
  refine ⟨t, hrun, by decide +kernel, fun h => ?_⟩
  obtain ⟨n, hn, hzero⟩ := h.lLen
  cases hlen.symm.trans hn
  rw [hseq] at hzero
  cases hzero

end BoltDB.Store.Lists
