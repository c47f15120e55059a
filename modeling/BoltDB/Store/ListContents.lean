import BoltDB.Store.ListChains

/-!
# What the lists of a store hold

The values of all lists, each with its key, as one multiset. A push adds to it, a pop takes a value
away, a move does both, and nothing else of it changes; `LRANGE key 0 -1` shows what it has for a key.
-/

namespace BoltDB.Store.Lists

open Bytes KeyValue List Multiset

/-! ## Values with their keys -/

section Keyed

variable {κ : Type} [DecidableEq κ]

/-- The values that stand with a key. -/
def valuesAt (k : κ) (stored : Multiset (κ × Bytes)) : Multiset Bytes :=
  (stored.filter fun x => x.1 = k).map Prod.snd

@[simp] theorem valuesAt_add (k : κ) (s t : Multiset (κ × Bytes)) :
    valuesAt k (s + t) = valuesAt k s + valuesAt k t := by
  rw [valuesAt, filter_add, Multiset.map_add]
  rfl

@[simp] theorem valuesAt_cons_self (k : κ) (v : Bytes) (s : Multiset (κ × Bytes)) :
    valuesAt k ((k, v) ::ₘ s) = v ::ₘ valuesAt k s := by simp [valuesAt]

/-- Values under one key. -/
def keyed (k : κ) (vs : Multiset Bytes) : Multiset (κ × Bytes) := vs.map fun v => (k, v)

omit [DecidableEq κ] in
@[simp] theorem keyed_nil (k : κ) : keyed k ([] : List Bytes) = 0 := rfl

omit [DecidableEq κ] in
@[simp] theorem map_snd_keyed (k : κ) (vs : Multiset Bytes) : (keyed k vs).map Prod.snd = vs := by
  simp [keyed]

@[simp] theorem valuesAt_keyed_self (k : κ) (vs : Multiset Bytes) : valuesAt k (keyed k vs) = vs := by
  simp [valuesAt, keyed, Multiset.filter_map]

theorem valuesAt_keyed_of_ne {k k' : κ} (h : k' ≠ k) (vs : Multiset Bytes) :
    valuesAt k' (keyed k vs) = 0 := by
  simp [valuesAt, keyed, Multiset.filter_map, h.symm]

theorem card_valuesAt_le (k : κ) (s : Multiset (κ × Bytes)) : (valuesAt k s).card ≤ s.card := by
  rw [valuesAt, card_map]
  exact card_le_card (filter_le _ s)

variable {s : Multiset (κ × Bytes)}

/-- A value that stands with a key can be taken away there. -/
theorem exists_of_valuesAt_eq_cons {k : κ} {v : Bytes} {vs : Multiset Bytes}
    (h : valuesAt k s = v ::ₘ vs) : ∃ t, s = (k, v) ::ₘ t := by
  have hv : v ∈ valuesAt k s := h ▸ Multiset.mem_cons_self v vs
  obtain ⟨x, hx, rfl⟩ := Multiset.mem_map.mp hv
  obtain ⟨hmem, rfl⟩ := Multiset.mem_filter.mp hx
  exact exists_cons_of_mem hmem

theorem exists_of_valuesAt_eq_add {k : κ} {vs : List Bytes} {t : Multiset Bytes}
    (h : valuesAt k s = vs + t) : ∃ rest, s = keyed k vs + rest := by
  induction vs generalizing s with
  | nil => exact ⟨s, (Multiset.zero_add s).symm⟩
  | cons v vs ih =>
    change valuesAt k s = (v ::ₘ (vs : Multiset Bytes)) + t at h
    rw [cons_add] at h
    obtain ⟨s', rfl⟩ := exists_of_valuesAt_eq_cons h
    rw [valuesAt_cons_self, Multiset.cons_inj_right] at h
    obtain ⟨rest, rfl⟩ := ih h
    exact ⟨rest, (cons_add (k, v) _ rest).symm⟩

theorem count_valuesAt (k : κ) (v : Bytes) (s : Multiset (κ × Bytes)) :
    (valuesAt k s).count v = s.count (k, v) := by
  induction s using Multiset.induction_on with
  | empty => rfl
  | cons x s ih =>
    obtain ⟨k', v'⟩ := x
    rw [← singleton_add, valuesAt_add, count_add, count_add, ih]
    congr 1
    by_cases hk : k' = k
    · subst hk
      simp [valuesAt, Multiset.filter_singleton, Multiset.count_singleton]
    · simp [valuesAt, Multiset.filter_singleton, hk, Ne.symm hk]

/-- The values by key are all there is. -/
theorem eq_of_valuesAt_eq {t : Multiset (κ × Bytes)} (h : ∀ k, valuesAt k s = valuesAt k t) :
    s = t := by
  ext ⟨k, v⟩
  rw [← count_valuesAt, ← count_valuesAt, h]

end Keyed

/-! ## All lists of a store -/

/-- The type record of a list. -/
def IsList (db : Db) (k : Bytes) : Prop := db[typeOfKeyGet k]? = some ⟨KeyType.list.name, 0⟩

/-- The lists hold these values under these keys, and every list that holds one has its type. -/
structure Holding (db : Db) (stored : Multiset (Bytes × Bytes)) : Prop where
  lists : ∀ k, ∃ nodes, Chain db k nodes ∧ valuesAt k stored = (nodes.map Prod.snd : List Bytes) ∧
    (nodes ≠ [] → IsList db k)
  types : ∀ {k : Bytes} {e : Entry}, db[typeOfKeyGet k]? = some e → e.expiresAt = 0

section Holding

variable {db db' : Db} {stored : Multiset (Bytes × Bytes)} {k : Bytes}

/-- What happened to one list. -/
theorem Holding.change (h : Holding db stored) {stored' : Multiset (Bytes × Bytes)} {nodes : List Node}
    (hother : ∀ k', k' ≠ k → valuesAt k' stored' = valuesAt k' stored) (honly : Only k db db')
    (hchain : Chain db' k nodes) (hvalues : valuesAt k stored' = (nodes.map Prod.snd : List Bytes))
    (htype : nodes ≠ [] → IsList db' k) : Holding db' stored' := by
  refine ⟨fun k' => ?_, fun he => h.types (honly.types _ ▸ he)⟩
  by_cases hk : k' = k
  · subst hk
    exact ⟨nodes, hchain, hvalues, htype⟩
  · obtain ⟨nodes', hchain', hvalues', htype'⟩ := h.lists k'
    refine ⟨nodes', hchain'.other honly hk, (hother k' hk).trans hvalues', fun hne => ?_⟩
    rw [IsList, honly.types]
    exact htype' hne

theorem IsList.visible (h : IsList db k) (now : Nat) : IsList (KeyValue.visible now db) k := by
  rw [IsList, getElem?_visible, h]
  rfl

theorem Holding.visible (h : Holding db stored) (now : Nat) : Holding (KeyValue.visible now db) stored := by
  refine ⟨fun k => ?_, fun {k e} he => ?_⟩
  · obtain ⟨nodes, hchain, hvalues, htype⟩ := h.lists k
    exact ⟨nodes, hchain.visible now, hvalues, fun hne => (htype hne).visible now⟩
  · rw [getElem?_visible, Option.filter_eq_some_iff] at he
    exact h.types he.1

theorem Chain.setType {nodes : List Node} (h : Chain db k nodes) (k' : Bytes) (e : Entry) :
    Chain (db.insert (typeOfKeyGet k') e) k nodes := h.congr fun p _ => by
  rw [getElem?_insert_ite, if_neg (Part.key_ne_typeOfKeyGet p k k')]

theorem IsList.setType {k' : Bytes} (h : IsList db k') (k : Bytes) :
    IsList (db.insert (typeOfKeyGet k) ⟨KeyType.list.name, 0⟩) k' := by
  rw [IsList, getElem?_insert_ite]
  split
  · rfl
  · exact h

/-- A type record says that a key is a list. -/
theorem Holding.setType (h : Holding db stored) (k : Bytes) :
    Holding (db.insert (typeOfKeyGet k) ⟨KeyType.list.name, 0⟩) stored := by
  refine ⟨fun k' => ?_, fun {k' e} he => ?_⟩
  · obtain ⟨nodes, hchain, hvalues, htype⟩ := h.lists k'
    exact ⟨nodes, hchain.setType k _, hvalues, fun hne => (htype hne).setType k⟩
  · rw [getElem?_insert_ite] at he
    split at he
    · cases he
      rfl
    · exact h.types he

theorem map_snd_withIDs (ids : Nat → Bytes) (values : List Bytes) :
    (withIDs ids values).map Prod.snd = values := by
  rw [withIDs, List.map_map]
  exact zipIdx_map_fst 0 values

/-- Names for new nodes. -/
structure Fresh (db : Db) (k : Bytes) (new : List Node) : Prop where
  ids : ∀ x ∈ new, IsNodeID x.1
  nodup : (new.map Prod.fst).Nodup
  absent : ∀ x ∈ new, db[listKey k x.1]? = none

instance (db : Db) (k : Bytes) (new : List Node) : Decidable (Fresh db k new) :=
  decidable_of_iff ((∀ x ∈ new, IsNodeID x.1) ∧ (new.map Prod.fst).Nodup ∧
    ∀ x ∈ new, db[listKey k x.1]? = none)
    ⟨fun h => ⟨h.1, h.2.1, h.2.2⟩, fun h => ⟨h.ids, h.nodup, h.absent⟩⟩

variable {toLeft : Bool} {new : List Node}

theorem Holding.pushNodes (h : Holding db stored) (toLeft : Bool) (hnew : Fresh db k new)
    (hroom : stored.card + new.length < 2 ^ 63) (htype : IsList db k) :
    ∃ n db', pushNodes toLeft k new db = .ok (n, db') ∧ (n = 0 → new = []) ∧ Only k db db' ∧
      Holding db' (keyed k (new.map Prod.snd) + stored) := by
  obtain ⟨nodes, hchain, hvalues, -⟩ := h.lists k
  have hcard : nodes.length ≤ stored.card := by
    have hle := card_valuesAt_le k stored
    rwa [hvalues, coe_card, length_map] at hle
  have hlen : (withNodes toLeft new nodes).length = nodes.length + new.length := by
    cases toLeft <;> simp [withNodes, Nat.add_comm]
  obtain ⟨db₂, hrun, hchain₂, honly⟩ := hchain.pushNodes toLeft (by omega) hnew.ids hnew.nodup hnew.absent
  refine ⟨_, db₂, hrun, fun hzero => ?_, honly, ?_⟩
  · have hnil := congrArg List.length ((metaOf_length_eq_zero hchain₂.short).mp hzero)
    rw [hlen, length_nil] at hnil
    exact length_eq_zero_iff.mp (by omega)
  · refine h.change (fun k' hk => ?_) honly hchain₂ ?_ fun _ => ?_
    · rw [valuesAt_add, valuesAt_keyed_of_ne hk, Multiset.zero_add]
    · rw [valuesAt_add, valuesAt_keyed_self, hvalues, coe_add, coe_eq_coe]
      cases toLeft with
      | true =>
        simp only [withNodes, if_true, map_append, map_reverse]
        exact (reverse_perm _).symm.append_right _
      | false =>
        simp only [withNodes, Bool.false_eq_true, if_false, map_append]
        exact perm_append_comm
    · rw [IsList, honly.types]
      exact htype

theorem oriented_values_perm (d : Bool) (nodes : List Node) :
    ((oriented d nodes).map Prod.snd : List Bytes).Perm (nodes.map Prod.snd) := by
  cases d with
  | true => exact .refl _
  | false =>
    rw [oriented, if_neg Bool.false_ne_true, map_reverse]
    exact reverse_perm _

/-- Nodes are taken away at an end of one list. -/
theorem Holding.take (h : Holding db stored) {d : Bool} (front : List Node) {back : List Node}
    (hvalues : valuesAt k stored = ((oriented d (front ++ back)).map Prod.snd : List Bytes))
    (htype : front ++ back ≠ [] → IsList db k) (hchain : Chain db' k (oriented d back))
    (honly : Only k db db') :
    ∃ rest, stored = keyed k (front.map Prod.snd) + rest ∧ Holding db' rest := by
  have hsplit : valuesAt k stored = (front.map Prod.snd : List Bytes) + (back.map Prod.snd : List Bytes) := by
    rw [hvalues, coe_eq_coe.mpr (oriented_values_perm d _), map_append, coe_add]
  obtain ⟨rest, rfl⟩ := exists_of_valuesAt_eq_add hsplit
  refine ⟨rest, rfl, h.change (fun k' hk => ?_) honly hchain ?_ fun hne => ?_⟩
  · rw [valuesAt_add, valuesAt_keyed_of_ne hk, Multiset.zero_add]
  · rw [valuesAt_add, valuesAt_keyed_self] at hsplit
    rw [coe_eq_coe.mpr (oriented_values_perm d back)]
    exact Multiset.add_right_inj.mp hsplit
  · rw [IsList, honly.types]
    refine htype fun hnil => hne ?_
    rw [(append_eq_nil_iff.mp hnil).2, oriented_nil]

theorem Holding.oriented (h : Holding db stored) (d : Bool) (k : Bytes) :
    ∃ nodes, Chain db k (oriented d nodes) ∧
      valuesAt k stored = ((Lists.oriented d nodes).map Prod.snd : List Bytes) ∧
      (nodes ≠ [] → IsList db k) := by
  obtain ⟨nodes, hchain, hvalues, htype⟩ := h.lists k
  refine ⟨Lists.oriented d nodes, by rwa [oriented_oriented], by rwa [oriented_oriented], fun hne => ?_⟩
  refine htype fun hnil => hne ?_
  rw [hnil, oriented_nil]

/-- **A pop takes a value of its list**, if there is one. -/
theorem Holding.popNode (h : Holding db stored) {delete : Bytes → Txn Err Unit}
    (hdelete : Deletes k delete) (d : Bool) :
    (valuesAt k stored = 0 ∧ popNode delete d k db = .ok ([], db)) ∨
      ∃ v rest db', stored = (k, v) ::ₘ rest ∧ popNode delete d k db = .ok (v, db') ∧
        Holding db' rest ∧ Only k db db' ∧ IsList db k ∧
        ∀ id, IsNodeID id → db[listKey k id]? = none → db'[listKey k id]? = none := by
  obtain ⟨nodes, hchain, hvalues, htype⟩ := h.oriented d k
  cases nodes with
  | nil =>
    rw [oriented_nil] at hchain hvalues
    exact .inl ⟨hvalues, popNode_nil hchain⟩
  | cons n l =>
    obtain ⟨db', hrun, hchain', honly, hkeep⟩ := popNode_spec hdelete hchain
    obtain ⟨rest, hstored, hrest⟩ := h.take [n] hvalues htype hchain' honly
    refine .inr ⟨n.2, rest, db', hstored, hrun, hrest, honly, htype (cons_ne_nil n l),
      fun id hid hnone => ?_⟩
    rw [hkeep id hid, hnone]
    -- the node that is popped is there
    rintro rfl
    rw [(nodes_oriented.mp hchain.body).value n mem_cons_self] at hnone
    cases hnone

/-- `LMPop` takes as many values as it returns. -/
theorem Holding.lMPopTxn (h : Holding db stored) {d : Bool} {count : Int64} {vs : List Bytes}
    (hrun : lMPopTxn d k count db = .ok (vs, db')) :
    ∃ rest, stored = keyed k vs + rest ∧ Holding db' rest ∧ Only k db db' := by
  obtain ⟨nodes, hchain, hvalues, htype⟩ := h.oriented d k
  by_cases hcount : TooMany count
  · -- such a count goes through only when there is nothing to pop
    rw [Lists.lMPopTxn, Txn.lift_bind_ok hchain.listGetMeta] at hrun
    split at hrun
    · cases hrun
      exact ⟨stored, (Multiset.zero_add stored).symm, h, .refl k db⟩
    · cases hrun
  · obtain ⟨db₁, hpop, hchain₁, honly⟩ := hchain.lMPopTxn hcount
    cases hpop.symm.trans hrun
    rw [← take_append_drop count.toInt.toNat nodes] at hvalues htype
    obtain ⟨rest, hstored, hrest⟩ := h.take _ hvalues htype hchain₁ honly
    exact ⟨rest, hstored, hrest, honly⟩

/-- What is a list stays one. -/
def Grows (db db' : Db) : Prop := ∀ k, IsList db k → IsList db' k

theorem Only.grows (h : Only k db db') : Grows db db' := fun k' hk' => by
  rw [IsList, h.types]
  exact hk'

theorem Fresh.mono (h : Fresh db k new)
    (habsent : ∀ x ∈ new, db[listKey k x.1]? = none → db'[listKey k x.1]? = none) : Fresh db' k new :=
  ⟨h.ids, h.nodup, fun x hx => habsent x hx (h.absent x hx)⟩

theorem Fresh.visible (h : Fresh db k new) (now : Nat) :
    Fresh (KeyValue.visible now db) k new := h.mono fun x _ hnone => by
  rw [getElem?_visible, hnone]
  rfl

theorem Fresh.setType (h : Fresh db k new) (k' : Bytes) (e : Entry) :
    Fresh (db.insert (typeOfKeyGet k') e) k new := h.mono fun x _ hnone => by
  have hkey : listKey k x.1 ≠ typeOfKeyGet k' := Part.key_ne_typeOfKeyGet (.value x.1) k k'
  rwa [getElem?_insert_ite, if_neg hkey]

/-- A name that is free in one list is so after a pop from another, or from the same. -/
theorem Fresh.popped {destination id w : Bytes} (h : Fresh db destination [(id, w)])
    (honly : Only k db db')
    (habsent : ∀ id, IsNodeID id → db[listKey k id]? = none → db'[listKey k id]? = none)
    (v : Bytes) : Fresh db' destination [(id, v)] := by
  have hid : IsNodeID id := h.ids (id, w) mem_cons_self
  have hnone : db[listKey destination id]? = none := h.absent (id, w) mem_cons_self
  refine ⟨by simpa using hid, by simp, ?_⟩
  suffices db'[listKey destination id]? = none by simpa using this
  by_cases hsame : destination = k
  · subst hsame
    exact habsent id hid hnone
  · exact (honly.lists destination hsame (.value id) hid).trans hnone

theorem Holding.pushTxn (h : Holding db stored) {n : UInt64} (hnew : Fresh db k new)
    (hroom : stored.card + new.length < 2 ^ 63) (hrun : pushTxn toLeft k new db = .ok (n, db')) :
    Holding db' (keyed k (new.map Prod.snd) + stored) ∧ Grows db db' := by
  obtain ⟨-, -, hrun⟩ := Txn.lift_bind_eq_ok.mp hrun
  rw [Txn.set_bind] at hrun
  have htype : IsList (db.insert (typeOfKeyGet k) ⟨KeyType.list.name, 0⟩) k := by
    rw [IsList, getElem?_insert_ite, if_pos rfl]
  obtain ⟨n', db₁, hpush, -, honly, hholding⟩ :=
    (h.setType k).pushNodes toLeft (hnew.setType k _) hroom htype
  cases hpush.symm.trans hrun
  exact ⟨hholding, fun k' hk' => honly.grows k' (hk'.setType k)⟩

/-- `LPUSHX` and `RPUSHX` return 0 when they push nothing. -/
theorem Holding.pushXTxn (h : Holding db stored) {n : UInt64} (hnew : Fresh db k new)
    (hroom : stored.card + new.length < 2 ^ 63) (hrun : pushXTxn toLeft k new db = .ok (n, db')) :
    Holding db' (keyed k (if n = 0 then [] else new.map Prod.snd : List Bytes) + stored) ∧
      Grows db db' := by
  obtain ⟨e, db₁, hget, hrun⟩ := Txn.bind_eq_ok.mp hrun
  cases hget
  cases htype : db[typeOfKeyGet k]? with
  | none =>
    rw [htype] at hrun
    cases hrun
    rw [if_pos rfl, keyed_nil, Multiset.zero_add]
    exact ⟨h, fun _ hk => hk⟩
  | some e =>
    rw [htype] at hrun
    change (if e.value = KeyType.list.name then _ else _ : Txn Err UInt64) db = _ at hrun
    split at hrun
    · next hlist =>
      have hIsList : IsList db k := by
        rw [IsList, htype, ← hlist, ← h.types htype]
      obtain ⟨n', db₁, hpush, hzero, honly, hholding⟩ := h.pushNodes toLeft hnew hroom hIsList
      cases hpush.symm.trans hrun
      refine ⟨?_, honly.grows⟩
      split
      · next hn =>
        rw [hzero hn] at hholding
        exact hholding
      · exact hholding
    · cases hrun

/-- No value is empty. -/
def NoneEmpty (stored : Multiset (Bytes × Bytes)) : Prop := ∀ x ∈ stored, x.2 ≠ []

/-- **A move takes a value of one list and gives it to another.** An empty value stands for a list
without values. -/
theorem Holding.move (h : Holding db stored) (hne : NoneEmpty stored)
    {source destination id v : Bytes} {d : Bool} (hid : Fresh db destination [(id, [])])
    (hroom : stored.card < 2 ^ 63)
    (hrun : (listPopInTxn d source >>= pushPopped toLeft destination id) db = .ok (v, db')) :
    (v = [] ∧ Holding db' stored ∨ v ≠ [] ∧ ∃ rest, stored = (source, v) ::ₘ rest ∧
      Holding db' ((destination, v) ::ₘ rest)) ∧ Grows db db' := by
  obtain ⟨w, db₁, hpop, hpush⟩ := Txn.bind_eq_ok.mp hrun
  rcases h.popNode (deletes_deleteNode source) d with ⟨-, hnone⟩ | ⟨w', rest, db₂, rfl, hsome, hrest, honly, -, habsent⟩
  · cases hnone.symm.trans hpop
    cases hpush
    exact ⟨.inl ⟨rfl, h⟩, fun _ hk => hk⟩
  · cases hsome.symm.trans hpop
    have hw : w ≠ [] := hne (source, w) (Multiset.mem_cons_self _ _)
    rw [pushPopped, if_neg hw] at hpush
    obtain ⟨n, db₂, hpushed, hv⟩ := Txn.bind_eq_ok.mp hpush
    cases hv
    obtain ⟨hholding, hgrows⟩ :=
      hrest.pushTxn (hid.popped honly habsent v) (by simpa using hroom) hpushed
    exact ⟨.inr ⟨hw, rest, rfl, hholding⟩, fun k' hk' => hgrows k' (honly.grows k' hk')⟩

end Holding

/-! ## Reading a list -/

/-- An index below 0 counts from the end of a sequence. -/
def fromEnd (len : Nat) (i : Int) : Int := if i < 0 then len + i else i

/-- The element at an index, if it is inside. -/
def nth {α : Type} (s : List α) (i : Int) : Option α :=
  let j := fromEnd s.length i
  if j < 0 then none else s[j.toNat]?

/-- The elements from one index to another, both cut to the sequence. -/
def slice {α : Type} (s : List α) (start stop : Int) : List α :=
  let a := max (fromEnd s.length start) 0
  let b := min (fromEnd s.length stop) (s.length - 1)
  if b < a then [] else (s.drop a.toNat).take (b - a + 1).toNat

theorem slice_all {α : Type} (s : List α) : slice s 0 (-1) = s := by
  unfold slice fromEnd
  cases s with
  | nil => rfl
  | cons x s =>
    simp

section Read

variable {db : Db} {k : Bytes} {d : Bool} {nodes : List Node}

theorem Nodes.take (h : Nodes db k d nodes) (n : Nat) : Nodes db k d (nodes.take n) where
  ids m hm := h.ids m (mem_of_mem_take hm)
  nodup := h.nodup.sublist ((take_sublist n nodes).map Prod.fst)
  value m hm := h.value m (mem_of_mem_take hm)
  linked := h.linked.take n

theorem Nodes.drop (h : Nodes db k d nodes) (n : Nat) : Nodes db k d (nodes.drop n) where
  ids m hm := h.ids m (mem_of_mem_drop hm)
  nodup := h.nodup.sublist ((drop_sublist n nodes).map Prod.fst)
  value m hm := h.value m (mem_of_mem_drop hm)
  linked := h.linked.drop n

/-- A walk does not come back to the nodes it has seen. -/
theorem Nodes.notMem_visited {n : Node} {rest : List Node} {visited : List Bytes}
    (h : Nodes db k d (n :: rest)) (hvisited : ∀ m ∈ n :: rest, m.1 ∉ visited) :
    ∀ m ∈ rest, m.1 ∉ n.1 :: visited := by
  intro m hm hmem
  rcases mem_cons.mp hmem with heq | hmem
  · exact h.ne_head hm heq
  · exact hvisited m (mem_cons_of_mem n hm) hmem

/-- Following `n` links leads to the node with `n` nodes before it. -/
theorem Nodes.walk (h : Nodes db k d nodes) {n : Nat} (hn : n < nodes.length) (visited : List Bytes)
    (hvisited : ∀ m ∈ nodes, m.1 ∉ visited) :
    walk d k n visited (firstID nodes) db = .ok (some (firstID (nodes.drop n))) := by
  induction n generalizing nodes visited with
  | zero => rfl
  | succ n ih =>
    cases nodes with
    | nil => simp at hn
    | cons m rest =>
      rw [length_cons, Nat.succ_lt_succ_iff] at hn
      have hne : rest ≠ [] := ne_nil_of_length_pos (by omega)
      rw [firstID_cons, Lists.walk, if_neg (hvisited m mem_cons_self), View.bind_apply,
        fetch_apply (h.next hne), drop_succ_cons]
      exact ih h.tail hn (m.1 :: visited) (h.notMem_visited hvisited)

theorem Nodes.collect_all (h : Nodes db k d nodes) (hne : nodes ≠ []) (visited : List Bytes)
    (hvisited : ∀ n ∈ nodes, n.1 ∉ visited) :
    collect d k nodes.length visited (firstID nodes) db = .ok (nodes.map Prod.snd) := by
  induction nodes generalizing visited with
  | nil => exact absurd rfl hne
  | cons n rest ih =>
    rw [length_cons, firstID_cons, Lists.collect, if_neg (hvisited n mem_cons_self), View.bind_apply,
      fetch_apply (h.value n mem_cons_self)]
    show (if rest.length = 0 then _ else _ : View Err (List Bytes)) db = _
    by_cases hnil : rest = []
    · subst hnil
      rfl
    · rw [if_neg (mt length_eq_zero_iff.mp hnil), View.bind_of_ok (fetch_apply (h.next hnil)),
        View.bind_of_ok (ih h.tail hnil (n.1 :: visited) (h.notMem_visited hvisited))]
      rfl

/-- The values of some nodes after some others. -/
theorem Nodes.collectFrom (h : Nodes db k d nodes) (skip count : Nat) (hpos : 0 < count)
    (hle : skip + count ≤ nodes.length) :
    collectFrom d k skip count (firstID nodes) db =
      .ok (((nodes.drop skip).take count).map Prod.snd) := by
  have hlen : ((nodes.drop skip).take count).length = count := by
    rw [length_take, length_drop]
    omega
  have hfirst : firstID ((nodes.drop skip).take count) = firstID (nodes.drop skip) := by
    rw [firstID, firstID, head?_take, if_neg (by omega)]
  have hcollect := ((h.drop skip).take count).collect_all (ne_nil_of_length_pos (by omega)) []
    (by simp)
  rw [hlen, hfirst] at hcollect
  rw [Lists.collectFrom, View.bind_apply, h.walk (by omega) [] (by simp)]
  exact hcollect

variable {α : Type} {n : UInt64}

theorem toInt_toInt64 (h : n.toNat < 2 ^ 63) : n.toInt64.toInt = n.toNat := by
  show n.toBitVec.toInt = _
  rw [BitVec.toInt_eq_toNat_of_lt]
  · rfl
  · show 2 * n.toNat < 2 ^ 64
    omega

/-- The index from the end does not overflow. -/
theorem toInt_fromEnd (h : n.toNat < 2 ^ 63) (i : Int64) :
    (if i < 0 then n.toInt64 + i else i).toInt = fromEnd n.toNat i.toInt := by
  have hlt : i < 0 ↔ i.toInt < 0 := by
    rw [Int64.lt_iff_toInt_lt]
    rfl
  unfold fromEnd
  by_cases hi : i < 0
  · have hlo := Int64.le_toInt i
    have hneg := hlt.mp hi
    rw [if_pos hi, if_pos hneg, Int64.toInt_add, toInt_toInt64 h]
    apply Int.bmod_eq_of_le <;> omega
  · rw [if_neg hi, if_neg (mt hlt.mpr hi)]

theorem bounds_eq (h : n.toNat < 2 ^ 63) (start stop : Int64) :
    bounds n start stop = (max (fromEnd n.toNat start.toInt) 0,
      min (fromEnd n.toNat stop.toInt) (n.toNat - 1)) := by
  unfold bounds
  simp only [toInt_fromEnd h, toInt_toInt64 h]

/-- The reading from the end gives the same elements in the opposite order. -/
theorem reverse_take_drop_reverse (l : List α) {a b : Nat} (hab : a ≤ b) (hb : b < l.length) :
    (((l.reverse.drop (l.length - 1 - b)).take (b - a + 1))).reverse = (l.drop a).take (b - a + 1) := by
  have hlen : l.length - (l.length - 1 - b) = b + 1 := by omega
  rw [drop_reverse, hlen, take_reverse, reverse_reverse, length_take_of_le (by omega), drop_take]
  congr 1
  · omega
  · congr 1
    omega

/-- **`LRANGE` answers the elements between its bounds**, whichever end it reads from. -/
theorem Chain.lRange (h : Chain db k nodes)
    (htype : ∀ e, db[typeOfKeyGet k]? = some e → e.value = KeyType.list.name) (start stop : Int64) :
    lRange k start stop db = .ok (slice (nodes.map Prod.snd) start.toInt stop.toInt) := by
  have hshort := h.short
  have hlen := toNat_metaOf_length hshort
  have hcheck := (checkKeyType_apply .list k db).trans (if_pos htype)
  rw [Lists.lRange, View.bind_of_ok hcheck, View.bind_of_ok h.listGetMeta]
  simp only [bounds_eq (hlen ▸ hshort), hlen]
  unfold slice
  rw [length_map]
  generalize ha : max (fromEnd nodes.length start.toInt) 0 = a
  generalize hb : min (fromEnd nodes.length stop.toInt) (nodes.length - 1) = b
  have ha0 : 0 ≤ a := ha ▸ le_max_right _ _
  have hbl : b ≤ nodes.length - 1 := hb ▸ min_le_right _ _
  by_cases hempty : b < a
  · rw [if_pos hempty, if_pos (.inr hempty)]
    rfl
  have hnil : nodes ≠ [] := by
    rintro rfl
    simp at hbl
    omega
  obtain ⟨a, rfl⟩ := Int.eq_ofNat_of_zero_le ha0
  obtain ⟨b, rfl⟩ := Int.eq_ofNat_of_zero_le (show 0 ≤ b by omega)
  have hcount : ((b : Int) - a + 1).toNat = b - a + 1 := by omega
  rw [if_neg hempty, if_neg (by rw [metaOf_length_eq_zero hshort]; tauto), hcount]
  split
  · have hone : (1 : UInt64) ≤ (metaOf nodes).length := by
      rw [UInt64.le_iff_toNat_le, hlen]
      exact length_pos_iff.mpr hnil
    have hpred : ((metaOf nodes).length - 1).toNat = nodes.length - 1 := by
      rw [UInt64.toNat_sub_of_le _ _ hone, hlen]
      rfl
    have hskip : (((metaOf nodes).length - 1).toInt64.toInt - (b : Int)).toNat =
        nodes.length - 1 - b := by
      rw [toInt_toInt64 (by omega), hpred]
      omega
    have hback := h.body.reverse.collectFrom (nodes.length - 1 - b) (b - a + 1)
      (by omega) (by rw [length_reverse]; omega)
    rw [firstID_reverse, Bool.not_true] at hback
    show (Lists.collectFrom false k _ (b - a + 1) (lastID nodes) >>= fun _ => _) db = _
    rw [hskip, View.bind_apply, hback]
    show Except.ok (List.reverse _) = _
    rw [← map_reverse, reverse_take_drop_reverse nodes (by omega) (by omega), map_take, map_drop]
    rfl
  · have hfront := h.body.collectFrom a (b - a + 1) (by omega) (by omega)
    rw [map_take, map_drop] at hfront
    exact hfront

theorem nth_eq {s : List α} {i : Int} {j : Nat} (h : fromEnd s.length i = j) : nth s i = s[j]? := by
  simp [nth, h]

theorem nth_eq_none {s : List α} {i : Int}
    (h : fromEnd s.length i < 0 ∨ (s.length : Int) ≤ fromEnd s.length i) : nth s i = none := by
  unfold nth
  simp only
  split
  · rfl
  · exact getElem?_eq_none (by omega)

/-- The node at an index, from whichever end the walk starts. -/
theorem Chain.walkToIndex (h : Chain db k nodes) {i : Nat} (hi : i < nodes.length) :
    walkToIndex k (metaOf nodes) i db = .ok (some (firstID (nodes.drop i))) := by
  have hlen : (metaOf nodes).length.toInt64.toInt = nodes.length := by
    rw [toInt_toInt64 (by rw [toNat_metaOf_length h.short]; exact h.short), toNat_metaOf_length h.short]
  rw [Lists.walkToIndex, hlen]
  simp only [Int.toNat_natCast]
  split
  · exact h.body.walk hi [] (by simp)
  · have hsteps : ((nodes.length : Int) - 1 - i).toNat = nodes.length - 1 - i := by omega
    have hback := h.body.reverse.walk (n := nodes.length - 1 - i)
      (by rw [length_reverse]; omega) [] (by simp)
    rw [firstID_reverse, Bool.not_true] at hback
    rw [hsteps]
    show walk false k (nodes.length - 1 - i) [] (lastID nodes) db = _
    have htake : nodes.length - (nodes.length - 1 - i) = i + 1 := by omega
    rw [hback, drop_reverse, firstID_reverse, htake, firstID, lastID, head?_drop,
      getLast?_take, if_neg (by omega), Nat.add_sub_cancel, getElem?_eq_getElem hi]
    rfl

/-- `getNodeByIndex` finds the node at an index, or nothing outside of the list. -/
theorem Chain.getNodeByIndex (h : Chain db k nodes) (index : Int64) :
    getNodeByIndex k index db = .ok (nth nodes index.toInt) := by
  have hshort := h.short
  have hlen := toNat_metaOf_length hshort
  have hpos : (metaOf nodes).length = 0 ↔ nodes.length = 0 := by
    rw [metaOf_length_eq_zero hshort, length_eq_zero_iff]
  rw [Lists.getNodeByIndex, View.bind_apply, h.listGetMeta]
  simp only [toInt_fromEnd (hlen ▸ hshort), toInt_toInt64 (hlen ▸ hshort), hlen]
  by_cases hout : fromEnd nodes.length index.toInt < 0 ∨
      (nodes.length : Int) ≤ fromEnd nodes.length index.toInt
  · rw [if_pos (.inr hout), nth_eq_none hout]
    rfl
  · push Not at hout
    obtain ⟨i, hi⟩ := Int.eq_ofNat_of_zero_le hout.1
    have hlt : i < nodes.length := by omega
    rw [if_neg (by rw [hpos]; omega), hi, nth_eq hi, View.bind_apply, h.walkToIndex hlt]
    obtain ⟨n, hn⟩ : ∃ n, nodes[i]? = some n := ⟨nodes[i], getElem?_eq_getElem hlt⟩
    have hfirst : firstID (nodes.drop i) = n.1 := by
      rw [firstID, head?_drop, hn]
      rfl
    have hvalue := fetch_apply (h.body.value n (mem_of_getElem? hn))
    rw [hfirst, hn]
    exact View.bind_of_ok hvalue

theorem nth_map {β : Type} (f : α → β) (s : List α) (i : Int) :
    nth (s.map f) i = (nth s i).map f := by
  simp only [nth, length_map]
  split
  · rfl
  · exact getElem?_map

/-- **`LINDEX` answers the element at an index**, nothing (an empty value) outside of the list. -/
theorem Chain.lIndex (h : Chain db k nodes)
    (htype : ∀ e, db[typeOfKeyGet k]? = some e → e.value = KeyType.list.name) (index : Int64) :
    lIndex k index db = .ok ((nth (nodes.map Prod.snd) index.toInt).getD []) := by
  rw [Lists.lIndex, View.bind_of_ok ((checkKeyType_apply .list k db).trans (if_pos htype)), nth_map]
  exact View.bind_of_ok (h.getNodeByIndex index)

/-- **`LLEN` answers the number of elements.** -/
theorem Chain.lLen (h : Chain db k nodes)
    (htype : ∀ e, db[typeOfKeyGet k]? = some e → e.value = KeyType.list.name) :
    lLen k db = .ok (UInt64.ofNat nodes.length) := by
  rw [Lists.lLen, View.bind_apply, checkKeyTypeInline_apply, if_pos fun e he => .inl (htype e he)]
  show Except.ok ((db[Part.length.key k]?.map (bytesToUint64 ·.value)).getD 0) = _
  rcases h.header with ⟨rfl, hnone⟩ | ⟨hlen, -, -⟩
  · rw [hnone]
    rfl
  · rw [hlen]
    simp [metaOf]

/-- What `LRANGE key 0 -1` shows at a time; nothing of a key of another type. -/
def listAt (now : Nat) (k : Bytes) (db : Db) : List Bytes :=
  match (view now (lRange k 0 (-1)) db).1 with
  | .ok values => values
  | .error _ => []

theorem Holding.listAt {stored : Multiset (Bytes × Bytes)} (h : Holding db stored) (now : Nat) (k : Bytes) :
    valuesAt k stored = listAt now k db := by
  obtain ⟨nodes, hchain, hvalues, htype⟩ := (h.visible (unix now)).lists k
  rw [hvalues, Lists.listAt]
  show _ = ((match lRange k 0 (-1) (KeyValue.visible (unix now) db) with
    | .ok values => values
    | .error _ => [] : List Bytes) : Multiset Bytes)
  by_cases hpass : ∀ e, (KeyValue.visible (unix now) db)[typeOfKeyGet k]? = some e →
      e.value = KeyType.list.name
  · rw [hchain.lRange hpass]
    exact congrArg _ (slice_all _).symm
  · -- a key of another type holds no list
    have hnil : nodes = [] := by
      by_contra hne
      exact hpass fun e he => by cases (htype hne).symm.trans he; rfl
    rw [Lists.lRange, View.bind_apply, checkKeyType_apply, if_neg hpass, hnil]
    rfl

end Read

end BoltDB.Store.Lists
