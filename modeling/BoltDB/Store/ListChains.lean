import BoltDB.Store.Lists

/-!
# The nodes of a list

A list of values stands behind the records of a list: the nodes from the start to the end, each with
its value and, unless it is the last, linked with the next one. What the first node has before it and
the last one after it is not looked at. Pushes and pops of `lpush_rpop.go` and `lpushpop_core.go` are
pushes and pops at an end of that list of values, whatever the other keys are called: the records of
two lists never have the same name.
-/

namespace BoltDB.Store.Lists

open Bytes KeyValue Hashes List UInt64

/-! ## Names of records -/

/-- The words that stand where the name of a node could stand. -/
def reserved : List Bytes := ["", "length", "start", "end", "next", "prev"].map ascii

/-- What holds of the name of every node: it is a UUID. -/
def IsNodeID (id : Bytes) : Prop := 58 ∉ id ∧ id ∉ reserved

instance (id : Bytes) : Decidable (IsNodeID id) := by
  unfold IsNodeID
  infer_instance

/-- The records of a list. -/
inductive Part
  | length | start | stop
  | value (id : Bytes)
  | link (forward : Bool) (id : Bytes)
  deriving DecidableEq

namespace Part

def last : Part → Bytes
  | length => "length"
  | start => "start"
  | stop => "end"
  | value id => id
  | link true _ => "next"
  | link false _ => "prev"

def key (k : Bytes) : Part → Bytes
  | length => lengthKey k
  | start => startKey k
  | stop => endKey k
  | value id => listKey k id
  | link forward id => linkKey forward k id

/-- The nodes have names that nodes can have. -/
def Ok : Part → Prop
  | value id | link _ id => IsNodeID id
  | _ => True

theorem afterLastColon_listKey (k : Bytes) {x : Bytes} (hx : 58 ∉ x) :
    afterLastColon (listKey k x) = x := by
  rw [listKey, recordPrefix, afterLastColon_append, afterLastColon_of_notMem hx]

theorem afterLastColon_listKey_colon (k a : Bytes) {x : Bytes} (hx : 58 ∉ x) :
    afterLastColon (listKey k (a ++ (":" ++ x))) = x := by
  rw [listKey, ← append_assoc, ← append_assoc, afterLastColon_append, afterLastColon_of_notMem hx]

variable {p : Part}

theorem afterLastColon_key (hp : p.Ok) (k : Bytes) : afterLastColon (p.key k) = p.last := by
  cases p with
  | length | start | stop => exact afterLastColon_listKey k (by decide)
  | value id => exact afterLastColon_listKey k hp.1
  | link forward id =>
    cases forward
    · exact afterLastColon_listKey_colon k id (x := "prev") (by decide)
    · exact afterLastColon_listKey_colon k id (x := "next") (by decide)

theorem last_ne_nil (hp : p.Ok) : p.last ≠ [] := by
  cases p with
  | value id =>
    rintro rfl
    exact hp.2 (by decide)
  | link forward id =>
    cases forward
    · exact show ascii "prev" ≠ [] by decide
    · exact show ascii "next" ≠ [] by decide
  | _ => decide

/-- The name of a record up to its last word. -/
def before (k : Bytes) : Part → Bytes
  | link _ id => listKey k id ++ ":"
  | _ => recordPrefix .list k

theorem key_eq (k : Bytes) (p : Part) : p.key k = p.before k ++ p.last := by
  cases p with
  | link forward id =>
    cases forward
    · simp [key, before, last, linkKey, prevKey, listKey, ascii]
    · simp [key, before, last, linkKey, nextKey, listKey, ascii]
  | _ => rfl

theorem eq_value_of_last {id : Bytes} (h : p.last = id) (hid : id ∉ reserved) : p = value id := by
  cases p with
  | value id' => exact congrArg value h
  | link forward id' =>
    subst h
    cases forward
    · exact absurd (show ascii "prev" ∈ reserved by decide) hid
    · exact absurd (show ascii "next" ∈ reserved by decide) hid
  | _ =>
    subst h
    exact absurd (by decide) hid

theorem recordPrefix_list_injective {k k' : Bytes} (h : recordPrefix .list k = recordPrefix .list k') :
    k = k' := by
  exact append_cancel_left (append_cancel_right h)

/-- **Two records of lists have the same name only if they are the same record of the same list.** -/
theorem key_injective {q : Part} (hp : p.Ok) (hq : q.Ok) {k k' : Bytes} (h : p.key k = q.key k') :
    k = k' ∧ p = q := by
  have hlast : p.last = q.last := by rw [← afterLastColon_key hp k, h, afterLastColon_key hq]
  have hbefore : p.before k = q.before k' := by
    rw [key_eq, key_eq, hlast] at h
    exact append_cancel_right h
  cases p with
  | value id =>
    obtain rfl := eq_value_of_last hlast.symm hp.2
    exact ⟨recordPrefix_list_injective hbefore, rfl⟩
  | link forward id =>
    cases q with
    | value id' => cases eq_value_of_last hlast hq.2
    | link forward' id' =>
      have hid : listKey k id = listKey k' id' := append_cancel_right hbefore
      have hsame : id = id' := by
        rw [← afterLastColon_listKey k hp.1, hid, afterLastColon_listKey k' hq.1]
      subst hsame
      refine ⟨recordPrefix_list_injective (append_cancel_right hid), ?_⟩
      cases forward <;> cases forward' <;> first | rfl | simp [last, ascii] at hlast
    | _ => cases forward <;> simp [last, ascii] at hlast
  | _ =>
    cases q with
    | value id => cases eq_value_of_last hlast hq.2
    | link forward id => cases forward <;> simp [last, ascii] at hlast
    | _ => first | exact ⟨recordPrefix_list_injective hbefore, rfl⟩ | exact absurd hlast (by decide)

/-- `deleteNode` deletes a name that no record has. -/
theorem key_ne_colon (hp : p.Ok) (k k' id : Bytes) : p.key k ≠ listKey k' (id ++ ":") := by
  intro h
  have hlast := afterLastColon_key hp k
  rw [h, ← append_nil (ascii ":"), afterLastColon_listKey_colon k' id not_mem_nil] at hlast
  exact last_ne_nil hp hlast.symm

theorem key_ne_typeOfKeyGet (p : Part) (k k' : Bytes) : p.key k ≠ typeOfKeyGet k' := by
  intro h
  refine not_isRecord_typeOfKeyGet .list k k' (h ▸ ?_)
  cases p with
  | link forward id => cases forward <;> exact isRecord_listKey k _
  | _ => exact isRecord_listKey k _

theorem getElem?_insert_key {q : Part} (hp : p.Ok) (hq : q.Ok) (db : Db) (k : Bytes) (e : Entry) :
    (db.insert (p.key k) e)[q.key k]? = if q = p then some e else db[q.key k]? := by
  rw [getElem?_insert_ite]
  by_cases h : q = p
  · rw [if_pos h, if_pos (h ▸ rfl)]
  · rw [if_neg h, if_neg fun heq => h (key_injective hq hp heq).2]

end Part

/-! ## Writing records -/

/-- Some records of a list are written, the last one first. -/
def put (k : Bytes) (db : Db) : List (Part × Bytes) → Db
  | [] => db
  | e :: es => (put k db es).insert (e.1.key k) ⟨e.2, 0⟩

/-- What a record is then. -/
@[simp] def written (p : Part) (old : Option Entry) : List (Part × Bytes) → Option Entry
  | [] => old
  | e :: es => if p = e.1 then some ⟨e.2, 0⟩ else written p old es

theorem getElem?_put {k : Bytes} {db : Db} {es : List (Part × Bytes)} {p : Part}
    (h : ∀ e ∈ es, e.1.Ok) (hp : p.Ok) :
    (put k db es)[p.key k]? = written p db[p.key k]? es := by
  induction es with
  | nil => rfl
  | cons e es ih =>
    obtain ⟨he, hes⟩ := forall_mem_cons.mp h
    rw [put, Part.getElem?_insert_key he hp, ih hes, written]

/-! ## Chains of nodes -/

abbrev Node := Bytes × Bytes

def firstID (nodes : List Node) : Bytes := (nodes.head?.map Prod.fst).getD []

def lastID (nodes : List Node) : Bytes := (nodes.getLast?.map Prod.fst).getD []

/-- Nodes in the order in which the links of one direction lead through them. -/
structure Nodes (db : Db) (k : Bytes) (d : Bool) (nodes : List Node) : Prop where
  ids : ∀ n ∈ nodes, IsNodeID n.1
  nodup : (nodes.map Prod.fst).Nodup
  value : ∀ n ∈ nodes, db[listKey k n.1]? = some ⟨n.2, 0⟩
  linked : nodes.IsChain fun a b =>
    db[linkKey d k a.1]? = some ⟨b.1, 0⟩ ∧ db[linkKey (!d) k b.1]? = some ⟨a.1, 0⟩

section Nodes

variable {db db' : Db} {k : Bytes} {d : Bool} {nodes : List Node} {n : Node}

theorem IsNodeID.ne_nil {id : Bytes} (h : IsNodeID id) : id ≠ [] := by
  rintro rfl
  exact h.2 (by decide)

@[simp] theorem firstID_cons (a : Node) (l : List Node) : firstID (a :: l) = a.1 := rfl

@[simp] theorem lastID_cons_cons (a b : Node) (l : List Node) : lastID (a :: b :: l) = lastID (b :: l) := by
  rw [lastID, lastID, getLast?_cons_cons]

theorem lastID_mem (h : nodes ≠ []) : lastID nodes ∈ nodes.map Prod.fst := by
  rw [lastID, getLast?_eq_some_getLast h]
  exact mem_map_of_mem (getLast_mem h)

theorem lastID_reverse (nodes : List Node) : lastID nodes.reverse = firstID nodes := by
  rw [lastID, firstID, getLast?_reverse]

theorem firstID_reverse (nodes : List Node) : firstID nodes.reverse = lastID nodes := by
  rw [lastID, firstID, head?_reverse]

theorem nodes_nil : Nodes db k d [] := ⟨by simp, by simp, by simp, .nil⟩

/-- The other direction leads through the nodes from the end. -/
theorem Nodes.reverse (h : Nodes db k d nodes) : Nodes db k (!d) nodes.reverse := by
  refine ⟨fun n hn => h.ids n (mem_reverse.mp hn), ?_,
    fun n hn => h.value n (mem_reverse.mp hn), ?_⟩
  · rw [map_reverse]
    exact nodup_reverse.mpr h.nodup
  · rw [isChain_reverse, Bool.not_not]
    exact h.linked.imp fun a b hab => ⟨hab.2, hab.1⟩

/-- Of a chain whose nodes are different, no pair starts with the last node or ends with the first. -/
theorem isChain_congr {R S : Node → Node → Prop} (hnodup : (nodes.map Prod.fst).Nodup)
    (h : nodes.IsChain R)
    (himp : ∀ a ∈ nodes, ∀ b ∈ nodes, a.1 ≠ lastID nodes → b.1 ≠ firstID nodes → R a b → S a b) :
    nodes.IsChain S := by
  induction nodes with
  | nil => exact .nil
  | cons a l ih =>
    cases l with
    | nil => exact .singleton a
    | cons b l =>
      rw [map_cons, nodup_cons] at hnodup
      rw [isChain_cons_cons] at h ⊢
      have hne : ∀ c ∈ b :: l, c.1 ≠ a.1 := fun c hc heq => hnodup.1 (heq ▸ mem_map_of_mem hc)
      have hlast : a.1 ≠ lastID (b :: l) := fun heq =>
        hnodup.1 (heq ▸ lastID_mem (cons_ne_nil b l))
      refine ⟨himp a mem_cons_self b (by simp) ?_ (hne b mem_cons_self) h.1, ?_⟩
      · rwa [lastID_cons_cons]
      · refine ih hnodup.2 h.2 fun c hc e he hclast _ => ?_
        exact himp c (mem_cons_of_mem a hc) e (mem_cons_of_mem a he) hclast (hne e he)

/-- A chain depends on its values and on the links between its nodes. -/
theorem Nodes.congr (h : Nodes db k d nodes)
    (hvalue : ∀ n ∈ nodes, db'[listKey k n.1]? = db[listKey k n.1]?)
    (hnext : ∀ n ∈ nodes, n.1 ≠ lastID nodes → db'[linkKey d k n.1]? = db[linkKey d k n.1]?)
    (hprev : ∀ n ∈ nodes, n.1 ≠ firstID nodes →
      db'[linkKey (!d) k n.1]? = db[linkKey (!d) k n.1]?) : Nodes db' k d nodes := by
  refine ⟨h.ids, h.nodup, fun n hn => (hvalue n hn).trans (h.value n hn), ?_⟩
  refine isChain_congr h.nodup h.linked fun a ha b hb hlast hfirst hab => ?_
  rw [hnext a ha hlast, hprev b hb hfirst]
  exact hab

variable {rest : List Node}

theorem Nodes.tail (h : Nodes db k d (n :: rest)) : Nodes db k d rest where
  ids m hm := h.ids m (mem_cons_of_mem n hm)
  nodup := (nodup_cons.mp h.nodup).2
  value m hm := h.value m (mem_cons_of_mem n hm)
  linked := h.linked.tail

theorem Nodes.ne_head (h : Nodes db k d (n :: rest)) {m : Node} (hm : m ∈ rest) :
    m.1 ≠ n.1 := fun heq => (nodup_cons.mp h.nodup).1 (heq ▸ mem_map_of_mem hm)

/-- A node in front of a chain. -/
theorem Nodes.cons {x : Node} (h : Nodes db k d (n :: rest)) (hx : IsNodeID x.1)
    (hnew : x.1 ∉ (n :: rest).map Prod.fst)
    (hget : ∀ p : Part, p.Ok → db'[p.key k]? =
      written p db[p.key k]? [(.link (!d) n.1, x.1), (.link d x.1, n.1), (.value x.1, x.2)]) :
    Nodes db' k d (x :: n :: rest) := by
  have hother : ∀ m ∈ n :: rest, m.1 ≠ x.1 := fun m hm heq => hnew (heq ▸ mem_map_of_mem hm)
  have hold : Nodes db' k d (n :: rest) := by
    refine h.congr (fun m hm => ?_) (fun m hm _ => ?_) (fun m hm (hfirst : m.1 ≠ n.1) => ?_)
    · exact (hget (.value m.1) (h.ids m hm)).trans (by simp [hother m hm, Part.key])
    · exact (hget (.link d m.1) (h.ids m hm)).trans (by simp [hother m hm, Part.key])
    · exact (hget (.link (!d) m.1) (h.ids m hm)).trans (by simp [hfirst, Part.key])
  refine ⟨forall_mem_cons.mpr ⟨hx, h.ids⟩, nodup_cons.mpr ⟨hnew, h.nodup⟩,
    forall_mem_cons.mpr ⟨?_, hold.value⟩, isChain_cons_cons.mpr ⟨⟨?_, ?_⟩, hold.linked⟩⟩
  · exact (hget (.value x.1) hx).trans (by simp)
  · exact (hget (.link d x.1) hx).trans (by simp)
  · exact (hget (.link (!d) n.1) (h.ids n mem_cons_self)).trans (by simp)

end Nodes

/-! ## Records that change -/

/-- No other list changes, and no type. -/
structure Only (k : Bytes) (db db' : Db) : Prop where
  lists : ∀ k', k' ≠ k → ∀ p : Part, p.Ok → db'[p.key k']? = db[p.key k']?
  types : ∀ k', db'[typeOfKeyGet k']? = db[typeOfKeyGet k']?

namespace Only

variable {k : Bytes} {db db' db'' : Db}

theorem refl (k : Bytes) (db : Db) : Only k db db := ⟨fun _ _ _ _ => rfl, fun _ => rfl⟩

theorem trans (h : Only k db db') (h' : Only k db' db'') : Only k db db'' :=
  ⟨fun k' hk p hp => (h'.lists k' hk p hp).trans (h.lists k' hk p hp),
    fun k' => (h'.types k').trans (h.types k')⟩

theorem insert (h : Only k db db') (p : Part) (hp : p.Ok) (e : Entry) :
    Only k db (db'.insert (p.key k) e) := by
  refine h.trans ⟨fun k' hk q hq => ?_, fun k' => ?_⟩
  · rw [getElem?_insert_ite, if_neg fun heq => hk (Part.key_injective hq hp heq).1]
  · rw [getElem?_insert_ite, if_neg (Part.key_ne_typeOfKeyGet p k k').symm]

theorem erase_of_ne (h : Only k db db') {p : Bytes} (hlists : ∀ k', k' ≠ k → ∀ q : Part, q.Ok → q.key k' ≠ p)
    (htypes : ∀ k', typeOfKeyGet k' ≠ p) : Only k db (db'.erase p) := by
  refine h.trans ⟨fun k' hk q hq => ?_, fun k' => ?_⟩
  · rw [getElem?_erase_ite, if_neg (hlists k' hk q hq)]
  · rw [getElem?_erase_ite, if_neg (htypes k')]

theorem erase (h : Only k db db') (p : Part) (hp : p.Ok) : Only k db (db'.erase (p.key k)) :=
  h.erase_of_ne (fun _ hk _ hq heq => hk (Part.key_injective hq hp heq).1)
    fun k' => (Part.key_ne_typeOfKeyGet p k k').symm

theorem erase_colon (h : Only k db db') (id : Bytes) :
    Only k db (db'.erase (listKey k (id ++ ":"))) :=
  h.erase_of_ne (fun k' _ _ hq => Part.key_ne_colon hq k' k id)
    fun k' heq => not_isRecord_typeOfKeyGet .list k k' (heq ▸ isRecord_listKey k _)

end Only

theorem only_put (k : Bytes) (db : Db) {es : List (Part × Bytes)} (h : ∀ e ∈ es, e.1.Ok) :
    Only k db (put k db es) := by
  induction es with
  | nil => exact .refl k db
  | cons e es ih =>
    exact (ih (forall_mem_cons.mp h).2).insert e.1 (forall_mem_cons.mp h).1 _

/-! ## Pushing a node -/

/-- What the three records of a list say. -/
def metaOf (nodes : List Node) : Meta := ⟨UInt64.ofNat nodes.length, firstID nodes, lastID nodes⟩

/-- A node at an end. -/
def withNode (toLeft : Bool) (x : Node) (nodes : List Node) : List Node :=
  if toLeft then x :: nodes else nodes ++ [x]

section Push

variable {db : Db} {k : Bytes} {nodes : List Node}

theorem toNat_metaOf_length (h : nodes.length < 2 ^ 63) : (metaOf nodes).length.toNat = nodes.length := by
  rw [metaOf, toNat_ofNat']
  omega

theorem metaOf_length_eq_zero (h : nodes.length < 2 ^ 63) : (metaOf nodes).length = 0 ↔ nodes = [] := by
  rw [← UInt64.toNat_inj, toNat_metaOf_length h]
  exact length_eq_zero_iff

theorem metaOf_withNode_length (toLeft : Bool) (x : Node) (nodes : List Node) :
    (metaOf (withNode toLeft x nodes)).length = (metaOf nodes).length + 1 := by
  have hlen : (withNode toLeft x nodes).length = nodes.length + 1 := by
    cases toLeft <;> simp [withNode]
  rw [metaOf, hlen, ofNat_add]
  rfl

theorem linkNodes_apply {a b : Bytes} (ha : a ≠ []) (hb : b ≠ []) (db : Db) : linkNodes k a b db =
      .ok ((), (db.insert (linkKey true k a) ⟨b, 0⟩).insert (linkKey false k b) ⟨a, 0⟩) := by
  rw [linkNodes, setUnlessEmpty, setUnlessEmpty, if_neg ha, if_neg hb]
  rfl

variable {x : Node}

/-- The first node. -/
theorem pushNode_nil (toLeft : Bool) (hx : IsNodeID x.1) (db : Db) :
    ∃ db', pushNode toLeft k (metaOf []) x db = .ok (metaOf [x], db') ∧
      db'[listKey k x.1]? = some ⟨x.2, 0⟩ ∧ Only k db db' := by
  have hes : ∀ e ∈ [(Part.link false x.1, x.1), (.link true x.1, x.1), (.value x.1, x.2)], e.1.Ok := by
    simp [Part.Ok, hx]
  refine ⟨put k db _, ?_, (getElem?_put (p := .value x.1) hes hx).trans (by simp), only_put k db hes⟩
  rw [pushNode, Txn.set_bind, if_pos (show (metaOf []).length = 0 from rfl), Txn.bind_apply,
    linkNodes_apply hx.ne_nil hx.ne_nil]
  rfl

/-- The node that a push makes the second one. -/
def nearID (d : Bool) (m : Meta) : Bytes := if d then m.start else m.stop

/-- A node next to the one at the end, whichever end it is. -/
theorem pushNode_near (toLeft : Bool) {m : Meta} (hm : m.length ≠ 0) (hx : IsNodeID x.1)
    (hnear : IsNodeID (nearID toLeft m)) (db : Db) :
    ∃ db', pushNode toLeft k m x db =
        .ok (if toLeft then ⟨m.length + 1, x.1, m.stop⟩ else ⟨m.length + 1, m.start, x.1⟩, db') ∧
      (∀ p : Part, p.Ok → db'[p.key k]? = written p db[p.key k]?
        [(.link (!toLeft) (nearID toLeft m), x.1), (.link toLeft x.1, nearID toLeft m), (.value x.1, x.2)]) ∧
      Only k db db' := by
  cases toLeft with
  | true =>
    change IsNodeID m.start at hnear
    have hes : ∀ e ∈ [(Part.link false m.start, x.1), (.link false m.start, x.1),
        (.link true x.1, m.start), (.value x.1, x.2)], e.1.Ok := by simp [Part.Ok, hx, hnear]
    refine ⟨put k db _, ?_, fun p hp => (getElem?_put hes hp).trans ?_, only_put k db hes⟩
    · rw [pushNode, Txn.set_bind, if_neg hm, if_pos rfl, Txn.bind_apply,
        linkNodes_apply hx.ne_nil hnear.ne_nil]
      rfl
    · by_cases h : p = .link false m.start <;> simp [nearID, h]
  | false =>
    change IsNodeID m.stop at hnear
    have hes : ∀ e ∈ [(Part.link true m.stop, x.1), (.link false x.1, m.stop),
        (.link true m.stop, x.1), (.value x.1, x.2)], e.1.Ok := by simp [Part.Ok, hx, hnear]
    refine ⟨put k db _, ?_, fun p hp => (getElem?_put hes hp).trans ?_, only_put k db hes⟩
    · rw [pushNode, Txn.set_bind, if_neg hm, if_neg Bool.false_ne_true, Txn.bind_apply,
        linkNodes_apply hnear.ne_nil hx.ne_nil]
      rfl
    · by_cases h : p = .link true m.stop <;> simp [nearID, h]

theorem metaOf_withNode (toLeft : Bool) (x : Node) (h : nodes ≠ []) :
    metaOf (withNode toLeft x nodes) = if toLeft then ⟨(metaOf nodes).length + 1, x.1, (metaOf nodes).stop⟩
      else ⟨(metaOf nodes).length + 1, (metaOf nodes).start, x.1⟩ := by
  rw [← metaOf_withNode_length toLeft x nodes]
  obtain ⟨n, rest, rfl⟩ := exists_cons_of_ne_nil h
  cases toLeft with
  | true => simp [withNode, metaOf, firstID]
  | false =>
    have hlast : lastID (n :: rest ++ [x]) = x.1 := by rw [lastID, getLast?_concat]; rfl
    simp only [withNode, metaOf, Bool.false_eq_true, if_false, hlast]
    rfl

/-- One node is pushed. -/
theorem pushNode_spec (toLeft : Bool) (h : Nodes db k true nodes) (hlen : nodes.length < 2 ^ 63)
    (hx : IsNodeID x.1) (hnew : x.1 ∉ nodes.map Prod.fst) :
    ∃ db', pushNode toLeft k (metaOf nodes) x db = .ok (metaOf (withNode toLeft x nodes), db') ∧
      Nodes db' k true (withNode toLeft x nodes) ∧ Only k db db' := by
  by_cases hnil : nodes = []
  · subst hnil
    obtain ⟨db', hrun, hvalue, honly⟩ := pushNode_nil (k := k) toLeft hx db
    have hone : withNode toLeft x [] = [x] := by cases toLeft <;> rfl
    rw [hone]
    exact ⟨db', hrun, ⟨by simpa using hx, by simp, by simpa using hvalue, .singleton x⟩, honly⟩
  have hm : (metaOf nodes).length ≠ 0 := mt (metaOf_length_eq_zero hlen).mp hnil
  -- the links that lead away from the end at which the node is pushed
  cases toLeft with
  | true =>
    obtain ⟨n, rest, rfl⟩ := exists_cons_of_ne_nil hnil
    have hnear : IsNodeID (nearID true (metaOf (n :: rest))) := h.ids n mem_cons_self
    obtain ⟨db', hrun, hget, honly⟩ := pushNode_near true hm hx hnear db
    rw [← metaOf_withNode true x hnil] at hrun
    exact ⟨db', hrun, h.cons hx hnew hget, honly⟩
  | false =>
    obtain ⟨n, rest, hrev⟩ := exists_cons_of_ne_nil (mt reverse_eq_nil_iff.mp hnil)
    have hback := h.reverse
    rw [hrev] at hback
    have hlast : nearID false (metaOf nodes) = n.1 := by
      show lastID nodes = _
      rw [← firstID_reverse, hrev]
      rfl
    have hnear : IsNodeID (nearID false (metaOf nodes)) := hlast ▸ hback.ids n mem_cons_self
    obtain ⟨db', hrun, hget, honly⟩ := pushNode_near false hm hx hnear db
    rw [← metaOf_withNode false x hnil] at hrun
    have hids : x.1 ∉ (n :: rest).map Prod.fst := by
      rw [← hrev, map_reverse, mem_reverse]
      exact hnew
    rw [hlast] at hget
    have hcons := (hback.cons hx hids hget).reverse
    refine ⟨db', hrun, ?_, honly⟩
    rwa [← hrev, reverse_cons, reverse_reverse] at hcons

/-- Nodes pushed one after the other. -/
def withNodes (toLeft : Bool) (new nodes : List Node) : List Node :=
  if toLeft then new.reverse ++ nodes else nodes ++ new

theorem withNodes_cons (toLeft : Bool) (x : Node) (new nodes : List Node) :
    withNodes toLeft (x :: new) nodes = withNodes toLeft new (withNode toLeft x nodes) := by
  cases toLeft <;> simp [withNodes, withNode]

theorem ids_withNode (toLeft : Bool) (x : Node) (nodes : List Node) (id : Bytes) :
    id ∈ (withNode toLeft x nodes).map Prod.fst ↔ id = x.1 ∨ id ∈ nodes.map Prod.fst := by
  cases toLeft <;> simp [withNode, or_comm]

theorem pushAll_spec (toLeft : Bool) {new : List Node} (h : Nodes db k true nodes)
    (hlen : nodes.length + new.length < 2 ^ 63) (hids : ∀ x ∈ new, IsNodeID x.1)
    (hnodup : (new.map Prod.fst).Nodup) (hnew : ∀ x ∈ new, x.1 ∉ nodes.map Prod.fst) :
    ∃ db', new.foldlM (pushNode toLeft k) (metaOf nodes) db =
        .ok (metaOf (withNodes toLeft new nodes), db') ∧
      Nodes db' k true (withNodes toLeft new nodes) ∧ Only k db db' := by
  induction new generalizing nodes db with
  | nil =>
    have hsame : withNodes toLeft [] nodes = nodes := by cases toLeft <;> simp [withNodes]
    rw [hsame]
    exact ⟨db, rfl, h, .refl k db⟩
  | cons x new ih =>
    rw [map_cons, nodup_cons] at hnodup
    rw [length_cons] at hlen
    obtain ⟨db₁, hrun, hnodes, honly⟩ := pushNode_spec toLeft h (by omega) (hids x mem_cons_self)
      (hnew x mem_cons_self)
    have hlen₁ : (withNode toLeft x nodes).length = nodes.length + 1 := by
      cases toLeft <;> simp [withNode]
    obtain ⟨db₂, hrest, hnodes₂, honly₂⟩ := ih hnodes (by omega)
      (fun y hy => hids y (mem_cons_of_mem x hy)) hnodup.2 fun y hy => by
        rw [ids_withNode]
        rintro (heq | hmem)
        · exact hnodup.1 (heq ▸ mem_map_of_mem hy)
        · exact hnew y (mem_cons_of_mem x hy) hmem
    rw [withNodes_cons]
    refine ⟨db₂, ?_, hnodes₂, honly.trans honly₂⟩
    rw [foldlM_cons, Txn.bind_apply, hrun]
    exact hrest

end Push

/-! ## Lists of nodes -/

/-- The list of a key: its nodes from the start to the end. A list that was never there has no
records; one that has been emptied has a length of 0. -/
structure Chain (db : Db) (k : Bytes) (nodes : List Node) : Prop where
  body : Nodes db k true nodes
  short : nodes.length < 2 ^ 63
  header : nodes = [] ∧ db[Part.length.key k]? = none ∨
    db[Part.length.key k]? = some ⟨uint64ToBytes (metaOf nodes).length, 0⟩ ∧
      db[Part.start.key k]? = some ⟨(metaOf nodes).start, 0⟩ ∧
      db[Part.stop.key k]? = some ⟨(metaOf nodes).stop, 0⟩

section Chain

variable {db db' : Db} {k : Bytes} {nodes : List Node}

theorem Nodes.congr_parts {d : Bool} (h : Nodes db k d nodes)
    (heq : ∀ id, IsNodeID id → db'[listKey k id]? = db[listKey k id]? ∧
      ∀ d, db'[linkKey d k id]? = db[linkKey d k id]?) : Nodes db' k d nodes :=
  h.congr (fun n hn => (heq n.1 (h.ids n hn)).1) (fun n hn _ => (heq n.1 (h.ids n hn)).2 d)
    fun n hn _ => (heq n.1 (h.ids n hn)).2 (!d)

/-- A list depends on its records only. -/
theorem Chain.congr (h : Chain db k nodes) (heq : ∀ p : Part, p.Ok → db'[p.key k]? = db[p.key k]?) :
    Chain db' k nodes := by
  refine ⟨h.body.congr_parts fun id hid => ⟨heq (.value id) hid, fun d => heq (.link d id) hid⟩,
    h.short, ?_⟩
  rw [heq .length trivial, heq .start trivial, heq .stop trivial]
  exact h.header

theorem Chain.other {k' : Bytes} (h : Chain db k' nodes) (honly : Only k db db') (hk : k' ≠ k) :
    Chain db' k' nodes := h.congr (honly.lists k' hk)

/-- The records of a list do not expire. -/
theorem Chain.visible (h : Chain db k nodes) (now : Nat) : Chain (visible now db) k nodes := by
  have hkeep : ∀ {p v : Bytes}, db[p]? = some ⟨v, 0⟩ → (KeyValue.visible now db)[p]? = some ⟨v, 0⟩ := by
    intro p v hp
    rw [getElem?_visible, hp]
    rfl
  refine ⟨⟨h.body.ids, h.body.nodup, fun n hn => hkeep (h.body.value n hn), ?_⟩, h.short, ?_⟩
  · exact h.body.linked.imp fun a b hab => ⟨hkeep hab.1, hkeep hab.2⟩
  · rcases h.header with ⟨hnil, hnone⟩ | ⟨hlen, hstart, hstop⟩
    · refine .inl ⟨hnil, ?_⟩
      rw [getElem?_visible, hnone]
      rfl
    · exact .inr ⟨hkeep hlen, hkeep hstart, hkeep hstop⟩

theorem Chain.listGetMeta (h : Chain db k nodes) : listGetMeta k db = .ok (metaOf nodes) := by
  rw [Lists.listGetMeta, View.bind_apply, View.get]
  rcases h.header with ⟨rfl, hnone⟩ | ⟨hlen, hstart, hstop⟩
  · rw [show db[lengthKey k]? = none from hnone]
    rfl
  · rw [show db[lengthKey k]? = _ from hlen]
    simp only [View.bind_apply, View.get, show db[startKey k]? = _ from hstart,
      show db[endKey k]? = _ from hstop, bytesToUint64_uint64ToBytes]
    rfl

/-- The three records are written once the nodes are there. -/
theorem Nodes.listUpdateMeta (h : Nodes db k true nodes) (hlen : nodes.length < 2 ^ 63) :
    ∃ db', listUpdateMeta k (metaOf nodes) db = .ok ((), db') ∧ Chain db' k nodes ∧ Only k db db' ∧
      ∀ id, IsNodeID id → db'[listKey k id]? = db[listKey k id]? := by
  have hes : ∀ e ∈ [(Part.stop, (metaOf nodes).stop), (.start, (metaOf nodes).start),
      (.length, uint64ToBytes (metaOf nodes).length)], e.1.Ok := by simp [Part.Ok]
  have hget : ∀ p : Part, p.Ok → (put k db _)[p.key k]? = _ := fun p => getElem?_put hes
  refine ⟨put k db _, rfl, ⟨h.congr_parts fun id hid => ⟨?_, fun d => ?_⟩, hlen, .inr ⟨?_, ?_, ?_⟩⟩,
    only_put k db hes, fun id hid => (hget (.value id) hid).trans (by simp [Part.key])⟩
  · exact (hget (.value id) hid).trans (by simp [Part.key])
  · exact (hget (.link d id) hid).trans (by simp [Part.key])
  · exact (hget .length trivial).trans (by simp)
  · exact (hget .start trivial).trans (by simp)
  · exact (hget .stop trivial).trans (by simp)

/-- **A push adds its values at an end.** -/
theorem Chain.pushNodes (h : Chain db k nodes) (toLeft : Bool) {new : List Node}
    (hlen : nodes.length + new.length < 2 ^ 63) (hids : ∀ x ∈ new, IsNodeID x.1)
    (hnodup : (new.map Prod.fst).Nodup) (habsent : ∀ x ∈ new, db[listKey k x.1]? = none) :
    ∃ db', pushNodes toLeft k new db = .ok ((metaOf (withNodes toLeft new nodes)).length, db') ∧
      Chain db' k (withNodes toLeft new nodes) ∧ Only k db db' := by
  obtain ⟨db₁, hrun, hnodes, honly⟩ := pushAll_spec toLeft h.body hlen hids hnodup fun x hx hmem => by
    obtain ⟨m, hm, heq⟩ := mem_map.mp hmem
    have hsome := h.body.value m hm
    rw [heq, habsent x hx] at hsome
    cases hsome
  have hlength : (withNodes toLeft new nodes).length = nodes.length + new.length := by
    cases toLeft <;> simp [withNodes, Nat.add_comm]
  obtain ⟨db₂, hmeta, hchain, honly₂, -⟩ := hnodes.listUpdateMeta (by omega)
  refine ⟨db₂, ?_, hchain, honly.trans honly₂⟩
  rw [Lists.pushNodes, Txn.lift_bind_ok h.listGetMeta, Txn.bind_of_ok hrun]
  exact Txn.bind_of_ok hmeta

end Chain

/-! ## Popping a node -/

/-- The nodes from the start, or from the end. -/
def oriented (d : Bool) (nodes : List Node) : List Node := if d then nodes else nodes.reverse

@[simp] theorem oriented_oriented (d : Bool) (nodes : List Node) :
    oriented d (oriented d nodes) = nodes := by cases d <;> simp [oriented]

@[simp] theorem oriented_nil (d : Bool) : oriented d [] = [] := by cases d <;> rfl

@[simp] theorem length_oriented (d : Bool) (nodes : List Node) :
    (oriented d nodes).length = nodes.length := by cases d <;> simp [oriented]

theorem nodes_oriented {db : Db} {k : Bytes} {d : Bool} {nodes : List Node} :
    Nodes db k true (oriented d nodes) ↔ Nodes db k d nodes := by
  cases d with
  | true => exact Iff.rfl
  | false => exact ⟨fun h => by simpa [oriented] using h.reverse, fun h => h.reverse⟩

/-- Everything is as before, but for the records of a node and what its neighbour and the other end
have outside of the chain. -/
def SameBut (k : Bytes) (d : Bool) (id : Bytes) (rest : List Node) (db db' : Db) : Prop :=
  ∀ p : Part, p.Ok → p ≠ .value id → (∀ d, p ≠ .link d id) → p ≠ .link d (lastID rest) →
    p ≠ .link (!d) (firstID rest) → db'[p.key k]? = db[p.key k]?

section Pop

variable {db db' db'' : Db} {k : Bytes} {d : Bool} {n : Node} {rest : List Node}

theorem SameBut.trans (h : SameBut k d n.1 rest db db') (h' : SameBut k d n.1 rest db' db'') :
    SameBut k d n.1 rest db db'' := fun p hp h₁ h₂ h₃ h₄ =>
  (h' p hp h₁ h₂ h₃ h₄).trans (h p hp h₁ h₂ h₃ h₄)

theorem SameBut.insert (h : SameBut k d n.1 rest db db') {p : Part} (hp : p.Ok)
    (hends : p = .link d (lastID rest) ∨ p = .link (!d) (firstID rest)) (e : Entry) :
    SameBut k d n.1 rest db (db'.insert (p.key k) e) := by
  intro q hq h₁ h₂ h₃ h₄
  rw [Part.getElem?_insert_key hp hq, if_neg]
  · exact h q hq h₁ h₂ h₃ h₄
  · rintro rfl
    exact hends.elim h₃ h₄

/-- The chain without its first node. -/
theorem Nodes.behead (h : Nodes db k d (n :: rest)) (hsame : SameBut k d n.1 rest db db') :
    Nodes db' k d rest := by
  have htail := h.tail
  refine htail.congr (fun m hm => ?_) (fun m hm hlast => ?_) (fun m hm hfirst => ?_)
  · refine hsame (.value m.1) (htail.ids m hm) (fun heq => ?_) ?_ ?_ ?_
    · exact h.ne_head hm (Part.value.inj heq)
    all_goals simp
  · refine hsame (.link d m.1) (htail.ids m hm) (by simp) (fun d' heq => ?_) (fun heq => ?_) (fun heq => ?_)
    · exact h.ne_head hm (Part.link.inj heq).2
    · exact hlast (Part.link.inj heq).2
    · exact absurd (Part.link.inj heq).1 (by simp)
  · refine hsame (.link (!d) m.1) (htail.ids m hm) (by simp) (fun d' heq => ?_) (fun heq => ?_) (fun heq => ?_)
    · exact h.ne_head hm (Part.link.inj heq).2
    · exact absurd (Part.link.inj heq).1 (by simp)
    · exact hfirst (Part.link.inj heq).2

/-- What deletes a node deletes nothing else of its list. -/
def Deletes (k : Bytes) (delete : Bytes → Txn Err Unit) : Prop :=
  ∀ id, IsNodeID id → ∀ db, ∃ db', delete id db = .ok ((), db') ∧ Only k db db' ∧
    ∀ p : Part, p.Ok → p ≠ .value id → (∀ d, p ≠ .link d id) → db'[p.key k]? = db[p.key k]?

theorem getElem?_erase_key {p q : Part} (hp : p.Ok) (hq : q.Ok) (hne : q ≠ p) (db : Db) (k : Bytes) :
    (db.erase (p.key k))[q.key k]? = db[q.key k]? := by
  rw [getElem?_erase_ite, if_neg fun heq => hne (Part.key_injective hq hp heq).2]

theorem deletes_removeNode (k : Bytes) : Deletes k (removeNode k) := by
  intro id hid db
  refine ⟨((db.erase (Part.key k (.value id))).erase (Part.key k (.link false id))).erase
    (Part.key k (.link true id)), rfl, ?_, fun p hp hvalue hlink => ?_⟩
  · exact (((Only.refl k db).erase (.value id) hid).erase (.link false id) hid).erase (.link true id) hid
  · rw [getElem?_erase_key (p := .link true id) hid hp (hlink true),
      getElem?_erase_key (p := .link false id) hid hp (hlink false),
      getElem?_erase_key (p := .value id) hid hp hvalue]

theorem deletes_deleteNode (k : Bytes) : Deletes k (deleteNode k) := by
  intro id hid db
  refine ⟨((db.erase (listKey k (id ++ ":"))).erase (Part.key k (.link false id))).erase
    (Part.key k (.link true id)), rfl, ?_, fun p hp hvalue hlink => ?_⟩
  · exact (((Only.refl k db).erase_colon id).erase (.link false id) hid).erase (.link true id) hid
  · rw [getElem?_erase_key (p := .link true id) hid hp (hlink true),
      getElem?_erase_key (p := .link false id) hid hp (hlink false), getElem?_erase_ite,
      if_neg (Part.key_ne_colon hp k k id)]

/-- The three records, from the end at which the list is popped. -/
theorem metaOf_oriented (d : Bool) (nodes : List Node) :
    metaOf (oriented d nodes) = if d then ⟨UInt64.ofNat nodes.length, firstID nodes, lastID nodes⟩
      else ⟨UInt64.ofNat nodes.length, lastID nodes, firstID nodes⟩ := by
  cases d with
  | true => rfl
  | false => simp [oriented, metaOf, firstID_reverse, lastID_reverse]

theorem nearID_metaOf_oriented (d : Bool) (nodes : List Node) :
    nearID d (metaOf (oriented d nodes)) = firstID nodes := by
  rw [metaOf_oriented]
  cases d <;> rfl

theorem farID_metaOf_oriented (d : Bool) (nodes : List Node) :
    nearID (!d) (metaOf (oriented d nodes)) = lastID nodes := by
  rw [metaOf_oriented]
  cases d <;> rfl

theorem fetch_apply {p : Bytes} {v : Bytes} (h : db[p]? = some ⟨v, 0⟩) : fetch p db = .ok v := by
  rw [fetch, View.bind_apply, View.get, h]
  rfl

theorem linkEnds_spec (d : Bool) (k id : Bytes) {rest : List Node} (hfirst : IsNodeID (firstID rest))
    (hlast : IsNodeID (lastID rest)) (db : Db) :
    ∃ db', linkEnds d k (lastID rest) (firstID rest) db = .ok ((), db') ∧
      SameBut k d id rest db db' ∧ Only k db db' := by
  have hrefl : SameBut k d (id, id).1 rest db db := fun _ _ _ _ _ _ => rfl
  cases d with
  | true =>
    refine ⟨_, linkNodes_apply hlast.ne_nil hfirst.ne_nil db, ?_, ?_⟩
    · exact (hrefl.insert (p := .link true (lastID rest)) hlast (.inl rfl) _).insert
        (p := .link false (firstID rest)) hfirst (.inr rfl) _
    · exact ((Only.refl k db).insert (.link true _) hlast _).insert (.link false _) hfirst _
  | false =>
    refine ⟨_, linkNodes_apply hfirst.ne_nil hlast.ne_nil db, ?_, ?_⟩
    · exact (hrefl.insert (p := .link true (firstID rest)) hfirst (.inr rfl) _).insert
        (p := .link false (lastID rest)) hlast (.inl rfl) _
    · exact ((Only.refl k db).insert (.link true _) hfirst _).insert (.link false _) hlast _

theorem Nodes.isNodeID_firstID (h : Nodes db k d rest) (hne : rest ≠ []) : IsNodeID (firstID rest) := by
  obtain ⟨n, l, rfl⟩ := exists_cons_of_ne_nil hne
  exact h.ids n mem_cons_self

theorem Nodes.isNodeID_lastID (h : Nodes db k d rest) (hne : rest ≠ []) : IsNodeID (lastID rest) := by
  obtain ⟨n, hn, heq⟩ := mem_map.mp (lastID_mem hne)
  exact heq ▸ h.ids n hn

theorem Nodes.next (h : Nodes db k d (n :: rest)) (hne : rest ≠ []) :
    db[linkKey d k n.1]? = some ⟨firstID rest, 0⟩ := by
  obtain ⟨m, l, rfl⟩ := exists_cons_of_ne_nil hne
  exact (isChain_cons_cons.mp h.linked).1.1

theorem one_lt_metaOf_length {nodes : List Node} (h : nodes.length < 2 ^ 63) :
    1 < (metaOf nodes).length ↔ 1 < nodes.length := by
  rw [lt_iff_toNat_lt, toNat_metaOf_length h]
  rfl

/-- The records without the first node. -/
def popped (d : Bool) (m : Meta) (next : Bytes) : Meta :=
  if d then ⟨m.length - 1, next, m.stop⟩ else ⟨m.length - 1, m.start, next⟩

theorem popped_metaOf (hne : rest ≠ []) :
    popped d (metaOf (oriented d (n :: rest))) (firstID rest) = metaOf (oriented d rest) := by
  have hlen : UInt64.ofNat (n :: rest).length - 1 = UInt64.ofNat rest.length := by
    rw [length_cons, ofNat_add]
    exact UInt64.add_sub_cancel _ _
  obtain ⟨m, l, rfl⟩ := exists_cons_of_ne_nil hne
  rw [metaOf_oriented, metaOf_oriented, ← hlen]
  cases d <;> rfl

theorem popped_metaOf_singleton (d : Bool) (n : Node) :
    (⟨(metaOf (oriented d [n])).length - 1, [], []⟩ : Meta) = metaOf (oriented d []) := by
  have hlen : (metaOf (oriented d [n])).length - 1 = 0 := by
    show UInt64.ofNat (oriented d [n]).length - 1 = 0
    rw [length_oriented]
    exact show UInt64.ofNat 1 - 1 = 0 by decide
  rw [hlen, oriented_nil]
  rfl

theorem metaOf_oriented_cons_length (h : (n :: rest).length < 2 ^ 63) :
    (metaOf (oriented d (n :: rest))).length ≠ 0 ∧
      (1 < (metaOf (oriented d (n :: rest))).length ↔ rest ≠ []) := by
  have hshort : (oriented d (n :: rest)).length < 2 ^ 63 := by rwa [length_oriented]
  rw [Ne, metaOf_length_eq_zero hshort, one_lt_metaOf_length hshort, ← length_eq_zero_iff,
    length_oriented, length_cons, ← length_pos_iff]
  omega

theorem unlinkEnd_spec (h : Nodes db k d (n :: rest)) (hlen : (n :: rest).length < 2 ^ 63) :
    ∃ db', unlinkEnd d k (metaOf (oriented d (n :: rest))) n.1 db = .ok (metaOf (oriented d rest), db') ∧
      SameBut k d n.1 rest db db' ∧ Only k db db' := by
  have hcount := (metaOf_oriented_cons_length (d := d) hlen).2
  rw [unlinkEnd]
  by_cases hne : rest = []
  · subst hne
    rw [if_neg (by simp [hcount]), popped_metaOf_singleton]
    exact ⟨db, rfl, fun _ _ _ _ _ _ => rfl, .refl k db⟩
  · obtain ⟨db', hrun, hsame, honly⟩ := linkEnds_spec d k n.1 (h.tail.isNodeID_firstID hne)
      (h.tail.isNodeID_lastID hne) db
    refine ⟨db', ?_, hsame, honly⟩
    rw [if_pos (hcount.mpr hne), Txn.lift_bind_ok (fetch_apply (h.next hne)), Txn.bind_apply]
    have hfar : (if d then (metaOf (oriented d (n :: rest))).stop else
        (metaOf (oriented d (n :: rest))).start) = lastID rest := by
      obtain ⟨m, l, rfl⟩ := exists_cons_of_ne_nil hne
      rw [metaOf_oriented]
      cases d <;> rfl
    rw [hfar, hrun, ← popped_metaOf hne]
    rfl

/-- **A pop takes the first value**, counted from the end at which it pops. -/
theorem popNode_spec {delete : Bytes → Txn Err Unit} (hdelete : Deletes k delete)
    (h : Chain db k (oriented d (n :: rest))) :
    ∃ db', popNode delete d k db = .ok (n.2, db') ∧ Chain db' k (oriented d rest) ∧ Only k db db' ∧
      ∀ id, IsNodeID id → id ≠ n.1 → db'[listKey k id]? = db[listKey k id]? := by
  have hshort : (n :: rest).length < 2 ^ 63 := by simpa using h.short
  have hnodes : Nodes db k d (n :: rest) := nodes_oriented.mp h.body
  obtain ⟨db₁, hunlink, hsame, honly⟩ := unlinkEnd_spec hnodes hshort
  obtain ⟨db₂, hdel, honly₂, hkeep⟩ := hdelete n.1 (hnodes.ids n mem_cons_self) db₁
  have hsame₂ : SameBut k d n.1 rest db db₂ := hsame.trans fun p hp hv hl _ _ => hkeep p hp hv hl
  obtain ⟨db₃, hmeta, hchain, honly₃, hvalue⟩ := (nodes_oriented.mpr (hnodes.behead hsame₂)).listUpdateMeta
    (by rw [length_oriented]; rw [length_cons] at hshort; omega)
  refine ⟨db₃, ?_, hchain, (honly.trans honly₂).trans honly₃, fun id hid hne => (hvalue id hid).trans ?_⟩
  swap
  · exact hsame₂ (.value id) hid (fun heq => hne (Part.value.inj heq)) (by simp) (by simp) (by simp)
  have hzero := (metaOf_oriented_cons_length (d := d) hshort).1
  have hnear : (if d then (metaOf (oriented d (n :: rest))).start else
      (metaOf (oriented d (n :: rest))).stop) = n.1 := nearID_metaOf_oriented d (n :: rest)
  rw [popNode, Txn.lift_bind_ok h.listGetMeta, if_neg hzero]
  simp only [hnear]
  rw [Txn.lift_bind_ok (fetch_apply (hnodes.value n mem_cons_self)), Txn.bind_of_ok hunlink,
    Txn.bind_of_ok hdel]
  exact Txn.bind_of_ok hmeta

theorem popNode_nil {delete : Bytes → Txn Err Unit} (h : Chain db k []) :
    popNode delete d k db = .ok ([], db) := by
  rw [popNode, Txn.lift_bind_ok h.listGetMeta]
  rfl

/-- The loop of `LMPop` pops one value after the other; the far end stays where it is. -/
theorem lMPopLoop_spec (count : Nat) (acc : List Bytes) {nodes : List Node} {far : Bytes}
    (h : Nodes db k d nodes) (hlen : nodes.length < 2 ^ 63) (hfar : nodes ≠ [] → far = lastID nodes) :
    ∃ db', lMPopLoop d k far count (metaOf (oriented d nodes)) acc db =
        .ok ((metaOf (oriented d (nodes.drop count)), acc ++ (nodes.take count).map Prod.snd), db') ∧
      Nodes db' k d (nodes.drop count) ∧ Only k db db' := by
  induction count generalizing db nodes acc with
  | zero => exact ⟨db, by simp [lMPopLoop]; rfl, h, .refl k db⟩
  | succ count ih =>
    cases nodes with
    | nil =>
      refine ⟨db, ?_, h, .refl k db⟩
      simp
      rfl
    | cons n rest =>
      obtain ⟨hzero, hcount⟩ := metaOf_oriented_cons_length (d := d) hlen
      have hnear : (if d then (metaOf (oriented d (n :: rest))).start else
          (metaOf (oriented d (n :: rest))).stop) = n.1 := nearID_metaOf_oriented d (n :: rest)
      obtain ⟨db₁, hdel, honly, hkeep⟩ := deletes_deleteNode k n.1 (h.ids n mem_cons_self) db
      have hvalue := fetch_apply (h.value n mem_cons_self)
      rw [length_cons] at hlen
      rw [lMPopLoop, if_neg hzero]
      simp only [hnear]
      by_cases hne : rest = []
      · subst hne
        obtain ⟨db₂, hrun, hnodes, honly₂⟩ := ih (acc ++ [n.2])
          (show Nodes db₁ k d [] from nodes_nil) (by simp) fun hne => absurd rfl hne
        refine ⟨db₂, ?_, by simpa using hnodes, honly.trans honly₂⟩
        rw [if_neg (by simp [hcount]), Txn.lift_bind_ok (show (pure [] : View Err Bytes) db = .ok [] from rfl),
          Txn.lift_bind_ok hvalue, Txn.bind_apply, hdel]
        show (if _ then _ else _ : Txn Err (Meta × List Bytes)) db₁ = _
        rw [if_neg (by simp [hcount]), popped_metaOf_singleton]
        simpa using hrun
      · have hlast : far = lastID rest := by
          obtain ⟨m, l, rfl⟩ := exists_cons_of_ne_nil hne
          rw [hfar (cons_ne_nil _ _), lastID_cons_cons]
        obtain ⟨db₂, hlink, hsame, honly₂⟩ := linkEnds_spec d k n.1 (h.tail.isNodeID_firstID hne)
          (h.tail.isNodeID_lastID hne) db₁
        have hrest : Nodes db₂ k d rest :=
          h.behead (SameBut.trans (fun p hp hv hl _ _ => hkeep p hp hv hl) hsame)
        obtain ⟨db₃, hrun, hnodes, honly₃⟩ := ih (acc ++ [n.2]) hrest (by omega) fun _ => hlast
        refine ⟨db₃, ?_, by simpa using hnodes, (honly.trans honly₂).trans honly₃⟩
        rw [if_pos (hcount.mpr hne), Txn.lift_bind_ok (fetch_apply (h.next hne)), Txn.lift_bind_ok hvalue,
          Txn.bind_apply, hdel]
        show (if _ then _ else _ : Txn Err (Meta × List Bytes)) db₁ = _
        rw [if_pos (hcount.mpr hne), Txn.bind_apply, hlast, hlink]
        show lMPopLoop d k (lastID rest) count (popped d _ (firstID rest)) (acc ++ [n.2]) db₂ = _
        rw [popped_metaOf hne, ← hlast]
        simpa using hrun

/-- **`LMPop` takes the values at an end**, as many as there are up to the count. -/
theorem Chain.lMPopTxn {count : Int64} (h : Chain db k (oriented d rest)) (hcount : ¬ TooMany count) :
    ∃ db', lMPopTxn d k count db = .ok ((rest.take count.toInt.toNat).map Prod.snd, db') ∧
      Chain db' k (oriented d (rest.drop count.toInt.toNat)) ∧ Only k db db' := by
  rw [Lists.lMPopTxn, Txn.lift_bind_ok h.listGetMeta]
  by_cases hnil : rest = []
  · subst hnil
    refine ⟨db, ?_, by simpa using h, .refl k db⟩
    rw [oriented_nil, if_pos (show (metaOf []).length = 0 from rfl)]
    simp
    rfl
  have hshort : rest.length < 2 ^ 63 := by simpa using h.short
  have hlength : (metaOf (oriented d rest)).length ≠ 0 := by
    obtain ⟨n, l, rfl⟩ := exists_cons_of_ne_nil hnil
    exact (metaOf_oriented_cons_length hshort).1
  have hfar : (if d then (metaOf (oriented d rest)).stop else (metaOf (oriented d rest)).start) =
      lastID rest := by
    have := farID_metaOf_oriented d rest
    cases d <;> exact this
  obtain ⟨db₁, hloop, hnodes, honly⟩ := lMPopLoop_spec count.toInt.toNat []
    (nodes_oriented.mp h.body) hshort fun _ => hfar
  obtain ⟨db₂, hmeta, hchain, honly₂, -⟩ := (nodes_oriented.mpr hnodes).listUpdateMeta
    (by rw [length_oriented, length_drop]; omega)
  refine ⟨db₂, ?_, hchain, honly.trans honly₂⟩
  rw [if_neg hlength, if_neg hcount, Txn.bind_of_ok hloop]
  exact Txn.bind_of_ok hmeta

end Pop

end BoltDB.Store.Lists
