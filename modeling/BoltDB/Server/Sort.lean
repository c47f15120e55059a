import BoltDB.Server.Handlers
import BoltDB.Store.ListSequence
import BoltDB.Store.Renaming
import BoltDB.Store.Sets
import BoltDB.Store.SortedSets

/-!
# `SORT`

`handleSORT` in `key_commands.go`. The elements are read, given weights, sorted with `sort.Slice`,
cut by `LIMIT`, replaced by what the `GET` patterns point to, and returned or pushed to a list.

`sort.Slice` is a parameter with its documented behaviour: it permutes, and it sorts if the comparison
is a strict one that is transitive together with its negation. The handler has the store for itself
here, at one time. The cluster is off.
-/

namespace BoltDB.Server.Sort

open Bytes KeyValue Store List

/-! ## Options -/

structure Options where
  offset : Int64 := 0
  count : Int64 := -1
  getPatterns : List Bytes := []
  asc : Bool := true
  alpha : Bool := false
  store : Option Bytes := none
  weightBy : Option Bytes := none

namespace Options

/-- The handler's `destKey`, which is empty without `STORE`. -/
def destKey (o : Options) : Bytes := o.store.getD []

def byPattern (o : Options) : Bytes := o.weightBy.getD []

end Options

/-- The arguments after the key; one that is no option is passed over. -/
def parseOptions (o : Options) : List Bytes → Except Resp Options
  | [] => .ok o
  | arg :: rest =>
    let opt := toUpper arg
    if opt = "BY" then
      match rest with
      | [] => .error .syntaxError
      | pattern :: rest => parseOptions { o with weightBy := some pattern } rest
    else if opt = "LIMIT" then
      match rest with
      | offset :: count :: rest =>
        match parseInt64 offset, parseInt64 count with
        | some offset, some count => parseOptions { o with offset, count } rest
        | _, _ => .error (.err "ERR value is not an integer")
      | _ => .error .syntaxError
    else if opt = "GET" then
      match rest with
      | [] => .error .syntaxError
      | pattern :: rest => parseOptions { o with getPatterns := o.getPatterns ++ [pattern] } rest
    else if opt = "ASC" then parseOptions { o with asc := true } rest
    else if opt = "DESC" then parseOptions { o with asc := false } rest
    else if opt = "ALPHA" then parseOptions { o with alpha := true } rest
    else if opt = "STORE" then
      match rest with
      | [] => .error .syntaxError
      | dest :: rest => parseOptions { o with store := some dest } rest
    else parseOptions o rest

/-! ## Elements and weights -/

section Handler

variable (c : Codec) (now : Nat) (db : Db)

/-- The elements, and the scores of a sorted set. -/
def readSource (key : Bytes) (keyType : String) : Except Resp (List Bytes × List F64) :=
  let read {α : Type} (m : View Err α) : Except Resp α := (view now m db).1.mapError wrapStoreError
  if keyType = "list" then (read (Lists.lRange key 0 (-1))).map fun vs => (vs, [])
  else if keyType = "set" then (read (Sets.sMembers key)).map fun vs => (vs, [])
  else if keyType = "string" then (read (Strings.get c key)).map fun v => ([v], [])
  else if keyType = "zset" then (read (SortedSets.zRange key 0 (-1))).map unzip
  else .error .wrongType

/-- `strings.Replace(pattern, "*", val, 1)`. -/
def expand (val : Bytes) : Bytes → Bytes
  | [] => []
  | b :: rest => if b = 42 then val ++ rest else b :: expand val rest

/-- `h.Db.Get` of the key a pattern stands for. -/
def fetch (pattern val : Bytes) : Except Err Bytes :=
  (view now (Strings.get c (expand val pattern)) db).1

/-- `float64(idx)`. -/
def ofIndex (idx : Nat) : F64 := .ofParts false (F64.round (idx * 2 ^ 1074) 1)

def parseOr (default : F64) (text : Bytes) : F64 :=
  match F64.parseFloat text with
  | .ok f => f
  | .error _ => default

/-- The weight of an element under `BY`: a missing key weighs nothing, and one that holds no number
weighs as much as the element's position. -/
def byWeight (pattern : Bytes) (val : Bytes) (idx : Nat) : F64 :=
  match fetch c now db pattern val with
  | .error _ => F64.zero
  | .ok text => if text = [] then ofIndex idx else parseOr (ofIndex idx) text

/-- `BY` has an effect. -/
def Weighted (o : Options) (values : List Bytes) : Prop := o.byPattern ≠ [] ∧ values ≠ []

instance (o : Options) (values : List Bytes) : Decidable (Weighted o values) :=
  inferInstanceAs (Decidable (_ ∧ _))

def weights (o : Options) (values : List Bytes) (scores : List F64) : List F64 :=
  if Weighted o values then values.zipIdx.map fun vi => byWeight c now db o.byPattern vi.1 vi.2
  else if scores = [] ∧ o.alpha = false then values.map (parseOr F64.zero)
  else scores

/-- `alpha` after the weights are fetched. -/
def sortsAlpha (o : Options) (values : List Bytes) : Bool := o.alpha && !decide (Weighted o values)

/-- `sortItem`. -/
structure Item where
  value : Bytes
  score : F64
  deriving DecidableEq

def items (values : List Bytes) (scores : List F64) : List Item :=
  values.zipIdx.map fun vi => ⟨vi.1, scores[vi.2]?.getD F64.zero⟩

/-- The comparison that `sort.Slice` is given. -/
def less (alpha asc : Bool) (a b : Item) : Bool :=
  if alpha then if asc then a.value < b.value else b.value < a.value
  else if asc then a.score.lt b.score else b.score.lt a.score

def limit {α : Type} (o : Options) (l : List α) : List α :=
  let l := if 0 < o.offset then l.drop o.offset.toInt.toNat else l
  if 0 ≤ o.count then l.take o.count.toInt.toNat else l

/-- The value for a `GET` pattern; a key that is not there counts as empty. -/
def getValue (pattern val : Bytes) : Bytes :=
  match fetch c now db pattern val with
  | .ok v => v
  | .error _ => []

/-- The handler goes through the patterns, and for each of them through the elements. -/
def applyGet (o : Options) (values : List Bytes) : List Bytes :=
  if o.getPatterns = [] then values
  else o.getPatterns.flatMap fun pattern => values.map (getValue c now db pattern)

variable (sort : (Item → Item → Bool) → List Item → List Item)

def sortedItems (o : Options) (values : List Bytes) (scores : List F64) : List Item :=
  sort (less (sortsAlpha o values) o.asc) (items values (weights c now db o values scores))

def results (o : Options) (values : List Bytes) (scores : List F64) : List Bytes :=
  applyGet c now db o (limit o ((sortedItems c now db sort o values scores).map Item.value))

end Handler

/-! ## The handler -/

section Store

variable (now : Nat) (ids : Nat → Bytes) (dest : Bytes)

/-- One `RPUSH` for each value, with the names of the nodes. -/
def pushEach : Nat → List Bytes → Run Err Unit
  | _, [] => pure ()
  | n, v :: vs => do
    let _ ← Lists.rPush now dest [v] fun _ => ids n
    pushEach (n + 1) vs

/-- The destination is deleted with the first value. -/
def storeList : List Bytes → Run Err Unit
  | [] => pure ()
  | values => do
    let _ ← del now dest
    pushEach now ids dest 0 values

end Store

def reply (now : Nat) (ids : Nat → Bytes) (o : Options) (values : List Bytes) (db : Db) : Resp × Db :=
  if o.destKey = [] then (.array values, db)
  else
    match storeList now ids o.destKey values db with
    | (.ok (), db') => (.integer (Int64.ofNat values.length), db')
    | (.error e, db') => (wrapStoreError e, db')

def handleSORT (c : Codec) (sort : (Item → Item → Bool) → List Item → List Item) (now : Nat)
    (ids : Nat → Bytes) : List Bytes → Db → Resp × Db
  | [], db => (.wrongNumber "SORT", db)
  | key :: opts, db =>
    match parseOptions {} opts with
    | .error r => (r, db)
    | .ok o =>
      match (view now (keyTypeName key) db).1 with
      | .error e => (wrapStoreError e, db)
      | .ok keyType =>
        if keyType = "none" then
          (.array [], if o.destKey = [] then db else (del now o.destKey db).2)
        else
          match readSource c now db key keyType with
          | .error r => (r, db)
          | .ok (values, scores) =>
            reply now ids o (results c now db sort o values scores) db

/-! ## What it is for -/

/-- A comparison as `sort.Slice` wants it: strict, and transitive together with its negation. -/
structure Strict (less : Item → Item → Bool) (l : List Item) : Prop where
  irrefl : ∀ a ∈ l, less a a = false
  trans : ∀ a ∈ l, ∀ b ∈ l, ∀ d ∈ l, less a b = true → less b d = true → less a d = true
  negTrans : ∀ a ∈ l, ∀ b ∈ l, ∀ d ∈ l, less a b = false → less b d = false → less a d = false

/-- `sort.Slice`. -/
structure Sorts (sort : (Item → Item → Bool) → List Item → List Item) : Prop where
  perm : ∀ less l, (sort less l).Perm l
  ordered : ∀ less l, Strict less l → (sort less l).Pairwise fun a b => less b a = false

section Specification

variable (c : Codec) (now : Nat) (db : Db) (o : Options)

/-- What an element is compared by under `ALPHA`: itself, or what `BY` points to. -/
def alphaWeight (val : Bytes) : Bytes :=
  if o.byPattern = [] then val else getValue c now db o.byPattern val

/-- The order that the options choose. -/
def before (a b : Item) : Bool :=
  if o.alpha then
    if o.asc then alphaWeight c now db o a.value < alphaWeight c now db o b.value
    else alphaWeight c now db o b.value < alphaWeight c now db o a.value
  else if o.asc then a.score.lt b.score else b.score.lt a.score

/-- What stands for one element in the reply. -/
def replacement (val : Bytes) : List Bytes :=
  if o.getPatterns = [] then [val] else o.getPatterns.map fun p => getValue c now db p val

/-- A permutation of the elements in the chosen order, cut, and replaced one by one. -/
def IsResult (values : List Bytes) (scores : List F64) (r : List Bytes) : Prop :=
  ∃ l : List Item, l.Perm (items values (weights c now db o values scores)) ∧
    l.Pairwise (fun a b => before c now db o b a = false) ∧
    r = (limit o l).flatMap fun it => replacement c now db o it.value

/-- The key is a list, a set or a sorted set with these elements. -/
structure Source (key : Bytes) (values : List Bytes) (scores : List F64) : Prop where
  type : ∃ name, (view now (keyTypeName key) db).1 = .ok name ∧ name ∈ ["list", "set", "zset"] ∧
    readSource c now db key name = .ok (values, scores)

/-- The reply is a result; with `STORE` its length is, and the destination holds it as a list, or
does not exist if it is empty. -/
def Correct (values : List Bytes) (scores : List F64) (out : Resp × Db) : Prop :=
  ∃ r, IsResult c now db o values scores r ∧
    match o.store with
    | none => out = (.array r, db)
    | some dest => out.1 = .integer (Int64.ofNat r.length) ∧
      if r = [] then (visible (unix now) out.2)[typeOfKeyGet dest]? = none
      else Lists.Represents out.2 dest r

end Specification

/-! ## When it does that -/

/-- Deleting a key leaves no record of a list under its name: it is a list, or there was none. -/
def Clears (now : Nat) (db : Db) (dest : Bytes) : Prop :=
  Renaming.Stores (visible (unix now) db) dest .list ∨
    ∀ p : Lists.Part, p.Ok → (visible (unix now) db)[p.key dest]? = none

/-- The elements after `LIMIT`, times the patterns. -/
def resultLength (o : Options) (values : List Bytes) : Nat :=
  (limit o values).length * max 1 o.getPatterns.length

/-- The names of the new nodes are names that nodes can have, and no two are the same. -/
def NewNames (ids : Nat → Bytes) (n : Nat) : Prop :=
  (∀ i < n, Lists.IsNodeID (ids i)) ∧ ∀ i < n, ∀ j < n, ids i = ids j → i = j

instance (ids : Nat → Bytes) (n : Nat) : Decidable (NewNames ids n) :=
  inferInstanceAs (Decidable (_ ∧ _))

/-- The requests that stay out of the handler's faults of order. No weight is NaN, unless no weight is below
another; elements that have to be sorted are not given both `BY` and `ALPHA`; there is at most one pattern
or one element to fetch; and a destination that gets something has no records of a list left over. -/
structure Regular (c : Codec) (now : Nat) (db : Db) (ids : Nat → Bytes) (o : Options)
    (values : List Bytes) (scores : List F64) : Prop where
  comparable : o.alpha = false →
    (∀ it ∈ items values (weights c now db o values scores), it.score.isNaN = false) ∨
      ∀ a ∈ items values (weights c now db o values scores),
        ∀ b ∈ items values (weights c now db o values scores), a.score.lt b.score = false
  alpha : o.alpha = true → o.byPattern = [] ∨ values.length ≤ 1
  gets : o.getPatterns.length ≤ 1 ∨ (limit o values).length ≤ 1
  clears : ∀ dest, o.store = some dest → limit o values ≠ [] → Clears now db dest
  room : resultLength o values < 2 ^ 63
  names : NewNames ids (resultLength o values)

/-! ## The order -/

section Order

variable {c : Codec} {now : Nat} {db : Db} {o : Options}

theorem Strict.flip {less : Item → Item → Bool} {l : List Item} (h : Strict less l) :
    Strict (fun a b => less b a) l where
  irrefl := h.irrefl
  trans a ha b hb d hd hab hbd := h.trans d hd b hb a ha hbd hab
  negTrans a ha b hb d hd hab hbd := h.negTrans d hd b hb a ha hbd hab

theorem Strict.mono {less : Item → Item → Bool} {l l' : List Item} (h : Strict less l)
    (hsub : ∀ a ∈ l', a ∈ l) : Strict less l' where
  irrefl a ha := h.irrefl a (hsub a ha)
  trans a ha b hb d hd := h.trans a (hsub a ha) b (hsub b hb) d (hsub d hd)
  negTrans a ha b hb d hd := h.negTrans a (hsub a ha) b (hsub b hb) d (hsub d hd)

theorem strict_value (l : List Item) : Strict (fun a b => decide (a.value < b.value)) l where
  irrefl a _ := decide_eq_false (List.lt_irrefl _)
  trans a _ b _ d _ hab hbd := by
    rw [decide_eq_true_eq] at *
    exact List.lt_trans hab hbd
  negTrans a _ b _ d _ hab hbd := by
    rw [decide_eq_false_iff_not] at *
    exact List.le_trans hbd hab

/-- Without a NaN the comparison of numbers is one of integers. -/
theorem strict_score {l : List Item} (h : ∀ it ∈ l, it.score.isNaN = false) :
    Strict (fun a b => a.score.lt b.score) l := by
  have hlt : ∀ a ∈ l, ∀ b ∈ l,
      a.score.lt b.score = decide (a.score.signedScaled < b.score.signedScaled) := by
    intro a ha b hb
    rw [F64.lt, h a ha, h b hb]
    rfl
  constructor
  · intro a ha
    rw [hlt a ha a ha]
    exact decide_eq_false (Int.lt_irrefl _)
  · intro a ha b hb d hd hab hbd
    rw [hlt a ha b hb, decide_eq_true_eq] at hab
    rw [hlt b hb d hd, decide_eq_true_eq] at hbd
    rw [hlt a ha d hd, decide_eq_true_eq]
    exact hab.trans hbd
  · intro a ha b hb d hd hab hbd
    rw [hlt a ha b hb, decide_eq_false_iff_not, Int.not_lt] at hab
    rw [hlt b hb d hd, decide_eq_false_iff_not, Int.not_lt] at hbd
    rw [hlt a ha d hd, decide_eq_false_iff_not, Int.not_lt]
    exact hbd.trans hab

/-- A comparison that finds no element before another. -/
theorem strict_of_false {less : Item → Item → Bool} {l : List Item}
    (h : ∀ a ∈ l, ∀ b ∈ l, less a b = false) : Strict less l where
  irrefl a ha := h a ha a ha
  trans a ha b hb _ _ hab _ := by
    rw [h a ha b hb] at hab
    cases hab
  negTrans a ha _ _ d hd _ _ := h a ha d hd

theorem strict_less {l : List Item} {alpha : Bool}
    (h : alpha = false → (∀ it ∈ l, it.score.isNaN = false) ∨
      ∀ a ∈ l, ∀ b ∈ l, a.score.lt b.score = false) (asc : Bool) :
    Strict (less alpha asc) l := by
  cases alpha with
  | true =>
    cases asc with
    | true => exact strict_value l
    | false => exact (strict_value l).flip
  | false =>
    have hscore : Strict (fun a b => a.score.lt b.score) l := (h rfl).elim strict_score strict_of_false
    cases asc with
    | true => exact hscore
    | false => exact hscore.flip

/-- Without both `BY` and `ALPHA` the handler compares by the chosen order. -/
theorem less_eq_before (h : o.alpha = true → o.byPattern = []) (values : List Bytes) (a b : Item) :
    less (sortsAlpha o values) o.asc a b = before c now db o a b := by
  cases halpha : o.alpha with
  | true =>
    have hby := h halpha
    have hsorts : sortsAlpha o values = true := by simp [sortsAlpha, Weighted, halpha, hby]
    simp only [less, before, hsorts, halpha, alphaWeight, hby, if_true]
  | false =>
    have hsorts : sortsAlpha o values = false := by simp [sortsAlpha, halpha]
    simp only [less, before, hsorts, halpha]
    rfl

end Order

/-! ## Cutting and replacing -/

section Results

variable {c : Codec} {now : Nat} {db : Db} {o : Options}

theorem limit_map {α β : Type} (o : Options) (f : α → β) (l : List α) :
    limit o (l.map f) = (limit o l).map f := by
  unfold limit
  split <;> split <;> simp

theorem length_limit {α β : Type} (o : Options) {l : List α} {l' : List β}
    (h : l.length = l'.length) : (limit o l).length = (limit o l').length := by
  unfold limit
  split <;> split <;> simp [h]

/-- Patterns first or elements first: it is the same if there is only one of either. -/
theorem applyGet_eq {values : List Bytes} (h : o.getPatterns.length ≤ 1 ∨ values.length ≤ 1) :
    applyGet c now db o values = values.flatMap (replacement c now db o) := by
  unfold applyGet replacement
  cases hp : o.getPatterns with
  | nil => simp
  | cons p ps =>
    obtain h | h := h
    · rw [hp] at h
      obtain rfl : ps = [] := eq_nil_of_length_eq_zero (by simpa using h)
      simp [map_eq_flatMap]
    · match values, h with
      | [], _ => simp
      | [v], _ => simp [map_eq_flatMap]

variable {sort : (Item → Item → Bool) → List Item → List Item} {values : List Bytes}
  {scores : List F64}

theorem length_items (values : List Bytes) (scores : List F64) :
    (items values scores).length = values.length := by simp [items]

theorem length_limit_sortedItems (hsort : Sorts sort) :
    (limit o (sortedItems c now db sort o values scores)).length = (limit o values).length :=
  length_limit o (by rw [sortedItems, (hsort.perm _ _).length_eq, length_items])

theorem isResult_results {ids : Nat → Bytes} (hsort : Sorts sort)
    (h : Regular c now db ids o values scores) :
    IsResult c now db o values scores (results c now db sort o values scores) := by
  refine ⟨sortedItems c now db sort o values scores, hsort.perm _ _, ?_, ?_⟩
  · by_cases hone : values.length ≤ 1
    · -- nothing has to be sorted
      have hlen : (sortedItems c now db sort o values scores).length ≤ 1 := by
        rw [sortedItems, (hsort.perm _ _).length_eq, length_items]
        exact hone
      match sortedItems c now db sort o values scores, hlen with
      | [], _ => exact .nil
      | [a], _ => exact pairwise_singleton _ a
    · have halpha : o.alpha = true → o.byPattern = [] := fun ha => (h.alpha ha).resolve_right hone
      have hstrict : Strict (less (sortsAlpha o values) o.asc)
          (items values (weights c now db o values scores)) := by
        apply strict_less
        intro hsorts
        apply h.comparable
        by_contra hne
        have ha : o.alpha = true := by simpa using hne
        simp [sortsAlpha, Weighted, ha, halpha ha] at hsorts
      refine (hsort.ordered _ _ hstrict).imp ?_
      intro a b hab
      rwa [← less_eq_before halpha values]
  · rw [results, limit_map, applyGet_eq, flatMap_map]
    refine h.gets.imp_right fun h => ?_
    rwa [length_map, length_limit_sortedItems hsort]

theorem length_results (hsort : Sorts sort) :
    (results c now db sort o values scores).length = resultLength o values := by
  have hlen : (limit o (sortedItems c now db sort o values scores)).length =
      (limit o values).length := length_limit_sortedItems hsort
  rw [results, limit_map, resultLength, ← hlen, applyGet]
  cases hp : o.getPatterns with
  | nil => simp
  | cons p ps =>
    simp [length_flatMap, Nat.mul_comm]
    rw [Nat.add_one_mul, Nat.add_comm]

/-- A result of no elements is empty. -/
theorem IsResult.eq_nil {r : List Bytes} (h : IsResult c now db o values scores r)
    (hnone : limit o values = []) : r = [] := by
  obtain ⟨l, hperm, -, rfl⟩ := h
  have hlen : (limit o l).length = (limit o values).length :=
    length_limit o (by rw [hperm.length_eq, length_items])
  rw [hnone, length_nil, length_eq_zero_iff] at hlen
  rw [hlen, flatMap_nil]

theorem results_eq_nil_iff (hsort : Sorts sort) :
    results c now db sort o values scores = [] ↔ limit o values = [] := by
  have hlen : (limit o (sortedItems c now db sort o values scores)).length =
      (limit o values).length := length_limit_sortedItems hsort
  rw [results, limit_map, ← length_eq_zero_iff, ← length_eq_zero_iff, ← hlen]
  unfold applyGet
  cases hp : o.getPatterns with
  | nil => simp
  | cons p ps =>
    simp only [cons_ne_nil, if_false, length_eq_zero_iff, flatMap_eq_nil_iff,
      map_eq_nil_iff]
    exact ⟨fun h => h p mem_cons_self, fun h _ _ => h⟩

/-! ## Storing -/

end Results

section Storing

variable {now : Nat} {ids : Nat → Bytes} {dest : Bytes} {db : Db}

theorem isRecord_part (p : Lists.Part) (k : Bytes) : IsRecord .list k (p.key k) := by
  cases p with
  | link forward id => cases forward <;> exact isRecord_listKey k _
  | _ => exact isRecord_listKey k _

/-- After a deletion there is no list under the name, if there was one only as the key. -/
theorem absent_del (h : Clears now db dest) :
    ∃ n db', del now dest db = (.ok n, db') ∧ Lists.Absent db' dest := by
  obtain ⟨db', hdest, htype, hgone, hkept⟩ :=
    Renaming.deleteDestination_spec dest (visible (unix now) db)
  obtain ⟨n, hdel⟩ := Renaming.delTxn_of_deleteDestination hdest
  refine ⟨n, db', Run.update_eq_ok.mpr hdel, htype, ?_⟩
  intro p hp
  by_cases hremove : Renaming.Removes (visible (unix now) db) dest (p.key dest)
  · exact hgone _ hremove
  · rw [hkept _ (Lists.Part.key_ne_typeOfKeyGet p dest dest) hremove]
    refine h.elim (fun hlist => ?_) fun hnone => hnone p hp
    exact absurd ⟨.list, hlist, isRecord_part p dest⟩ hremove

theorem clears_of_scan (h : scan (recordPrefix .list dest) (visible (unix now) db) = []) :
    Clears now db dest := by
  refine .inr fun p _ => ?_
  by_contra hne
  obtain ⟨e, he⟩ := Option.ne_none_iff_exists'.mp hne
  have hmem : (p.key dest, e) ∈ scan (recordPrefix .list dest) (visible (unix now) db) :=
    mem_scan.mpr ⟨he, (Renaming.isRecord_collection rfl).mp (isRecord_part p dest)⟩
  rw [h] at hmem
  cases hmem

/-- A push with one name writes no value under another. -/
theorem writes_push_other {id v other : Bytes} (hother : Lists.IsNodeID other) (hne : id ≠ other) :
    Writes (fun p _ => p ≠ listKey dest other) (Lists.pushTxn false dest [(id, v)]) := by
  have hpart : ∀ {part w : Bytes}, part ≠ other →
      Writes (fun p _ => p ≠ listKey dest other)
        (Txn.set (listKey dest part) w : Txn Err Unit) := fun hpart =>
    writes_set fun heq => hpart (append_cancel_left heq)
  have hlink : ∀ (x suffix : Bytes), 58 ∈ suffix → x ++ suffix ≠ other := by
    rintro x suffix hcolon rfl
    exact hother.1 (mem_append_right x hcolon)
  have hreserved : ∀ part ∈ Lists.reserved, part ≠ other := fun part hpart heq =>
    hother.2 (heq ▸ hpart)
  have hlinks : ∀ prevID nextID : Bytes, Writes (fun p _ => p ≠ listKey dest other)
      (Lists.linkNodes dest prevID nextID) := fun prevID nextID =>
    writes_bind (writes_ite writes_pure (hpart (hlink _ _ (by decide))))
      fun _ => writes_ite writes_pure (hpart (hlink _ _ (by decide)))
  refine writes_read fun _ => writes_bind (writes_set ?_) fun _ => writes_read fun m => ?_
  · exact (Lists.Part.key_ne_typeOfKeyGet (.value other) dest dest).symm
  refine writes_bind (writes_bind (writes_bind (hpart hne) fun _ => writes_ite ?_ (writes_ite ?_ ?_))
    fun _ => writes_pure) fun m' => writes_map ?_ _
  · exact writes_map (hlinks _ _) _
  · exact writes_bind (hlinks _ _) fun _ => writes_map (hpart (hlink _ _ (by decide))) _
  · exact writes_bind (hlinks _ _) fun _ => writes_map (hpart (hlink _ _ (by decide))) _
  · exact writes_bind (hpart (hreserved _ (by decide))) fun _ =>
      writes_bind (hpart (hreserved _ (by decide))) fun _ => hpart (hreserved _ (by decide))

/-- The induction is over the values that are still to come, whose names are not used yet. -/
theorem pushEach_spec {s vs : List Bytes} {n : Nat} (h : Lists.Represents db dest s)
    (hnames : NewNames ids (n + vs.length))
    (hnew : ∀ i, n ≤ i → i < n + vs.length → db[listKey dest (ids i)]? = none)
    (hroom : s.length + vs.length < 2 ^ 63) :
    ∃ db', pushEach now ids dest n vs db = (.ok (), db') ∧ Lists.Represents db' dest (s ++ vs) := by
  induction vs generalizing s n db with
  | nil =>
    rw [append_nil]
    exact ⟨db, rfl, h⟩
  | cons v vs ih =>
    rw [length_cons] at hroom hnames hnew
    have hfresh : Lists.Fresh db dest [(ids n, v)] := by
      refine ⟨?_, by simp, ?_⟩
      · rintro _ hx
        rw [mem_singleton.mp hx]
        exact hnames.1 n (by omega)
      · rintro _ hx
        rw [mem_singleton.mp hx]
        exact hnew n (le_refl n) (by omega)
    have hnodes : Lists.withIDs (fun _ => ids n) [v] = [(ids n, v)] := rfl
    obtain ⟨k, db₁, hrun, hrep⟩ := (h.visible (unix now)).pushTxn false (hfresh.visible (unix now))
      (by rw [length_singleton]; omega)
    have hpush : Lists.rPush now dest [v] (fun _ => ids n) db = (.ok k, db₁) := by
      rw [Lists.rPush, Lists.push, hnodes, Run.bind_of_ok (Lists.update_snd_of_ok hrun)]
      rfl
    have hkept : ∀ i, n + 1 ≤ i → i < n + 1 + vs.length →
        db₁[listKey dest (ids i)]? = none := by
      intro i hi hlt
      have hne : ids n ≠ ids i := fun heq => by
        have := hnames.2 n (by omega) i (by omega) heq
        omega
      rcases writes_push_other (hnames.1 i (by omega)) hne _ _ _ hrun (listKey dest (ids i)) with
        heq | hwrites
      · rw [heq]
        rw [getElem?_visible, hnew i (by omega) (by omega)]
        rfl
      · exact absurd rfl hwrites
    obtain ⟨db', hrun', hrep'⟩ := ih hrep (by rwa [Nat.add_right_comm]) hkept
      (by simp [Lists.ListOp.withValues]; omega)
    refine ⟨db', ?_, ?_⟩
    · rw [pushEach, Run.bind_of_ok hpush, hrun']
    · simpa [Lists.ListOp.withValues] using hrep'

theorem storeList_spec {r : List Bytes} (hne : r ≠ []) (hclear : Clears now db dest)
    (hroom : r.length < 2 ^ 63) (hnames : NewNames ids r.length) :
    ∃ db', storeList now ids dest r db = (.ok (), db') ∧ Lists.Represents db' dest r := by
  obtain ⟨n, db₁, hdel, habsent⟩ := absent_del hclear
  obtain ⟨db', hrun, hrep⟩ := pushEach_spec habsent.represents (n := 0)
    (by simpa using hnames) (fun i _ hi => habsent.2 (.value (ids i)) (hnames.1 i (by omega)))
    (by simpa using hroom)
  refine ⟨db', ?_, by simpa using hrep⟩
  cases r with
  | nil => exact absurd rfl hne
  | cons v vs =>
    rw [storeList, Run.bind_of_ok hdel, hrun]
    simp

end Storing

/-! ## The whole handler -/

/-- With an empty result nothing is stored and nothing is deleted. -/
theorem reply_nil {now : Nat} {ids : Nat → Bytes} {o : Options} {db : Db} {dest : Bytes}
    (hstore : o.store = some dest) (hdest : dest ≠ []) :
    reply now ids o [] db = (.integer 0, db) := by
  simp only [reply, Options.destKey, hstore, Option.getD_some, hdest, if_false]
  rfl

theorem reply_of_ne_nil {now : Nat} {ids : Nat → Bytes} {o : Options} {db db' : Db} {dest : Bytes}
    {r : List Bytes} (hstore : o.store = some dest) (hdest : dest ≠ [])
    (hrun : storeList now ids dest r db = (.ok (), db')) :
    reply now ids o r db = (.integer (Int64.ofNat r.length), db') := by
  simp only [reply, Options.destKey, hstore, Option.getD_some, hdest, if_false]
  rw [hrun]

/-- Insertion sort of the elements of a list, with the comparison as one between those. -/
def insertionSort (less : Item → Item → Bool) (l : List Item) : List Item :=
  (l.attach.insertionSort fun a b => less b.1 a.1 = false).map Subtype.val

/-- It behaves as `sort.Slice` is documented to. -/
theorem sorts_insertionSort : Sorts insertionSort where
  perm less l := by
    have hperm := (List.perm_insertionSort (fun a b : { a // a ∈ l } => less b.1 a.1 = false) l.attach).map
      Subtype.val
    rwa [attach_map_subtype_val] at hperm
  ordered less l h := by
    -- on the elements of the list the negated comparison is total and transitive
    have : Std.Total fun a b : { a // a ∈ l } => less b.1 a.1 = false := ⟨fun a b => by
      by_contra hneither
      obtain ⟨hba, hab⟩ := not_or.mp hneither
      have := h.trans a.1 a.2 b.1 b.2 a.1 a.2 (by simpa using hab) (by simpa using hba)
      rw [h.irrefl a.1 a.2] at this
      cases this⟩
    have : IsTrans { a // a ∈ l } fun a b => less b.1 a.1 = false := ⟨fun a b d hab hbd =>
      h.negTrans d.1 d.2 b.1 b.2 a.1 a.2 hbd hab⟩
    exact pairwise_map.mpr (List.pairwise_insertionSort _ l.attach)

section Examples

/-- Two numbers in a list `l`, what two patterns point to for each of them, and a string `d`. -/
def numbers : Db := (do
    let _ ← Lists.rPush 0 "l" ["2", "1"] (Lists.nodeNames 0)
    Strings.set uncompressed 0 "a1" "A"
    Strings.set uncompressed 0 "a2" "B"
    Strings.set uncompressed 0 "b1" "C"
    Strings.set uncompressed 0 "b2" "D"
    Strings.set uncompressed 0 "d" "old" : Run Err Unit) ∅ |>.2

theorem source_numbers : Source uncompressed 0 numbers "l" ["2", "1"] [] :=
  ⟨"list", by decide +kernel, by decide, by decide +kernel⟩

/-- `SORT l GET a* STORE d` replaces the string. -/
def sortStore : List Bytes := ["GET", "a*", "STORE", "d"].map ascii

/-- `SORT l GET a* GET b*`. -/
def sortTwoGets : Options := { getPatterns := ["a*", "b*"] }

/-- `SORT l LIMIT 5 1 STORE d`. -/
def sortNothing : Options := { offset := 5, count := 1, store := some "d" }

end Examples

end BoltDB.Server.Sort
