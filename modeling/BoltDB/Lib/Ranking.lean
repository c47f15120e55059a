import Mathlib

/-!
# Ranks in a sorted list

A list without repetitions is sorted by a strict order given as a test, and each element is entered
under its name with its place. The test has to be an order on the elements of the list only.

* `sort` — the list in the order of the test.
* `table` — the place of every element, by name.
* `getElem?_table` — the place of an element is the number of elements before it in the order.
-/

namespace Ranking

open List Std.ExtTreeMap

variable {α κ : Type*} (lt : α → α → Bool)

/-- The test orders the elements of a list. -/
structure OrdersOn (l : List α) : Prop where
  irrefl : ∀ a ∈ l, lt a a = false
  trans : ∀ a ∈ l, ∀ b ∈ l, ∀ c ∈ l, lt a b = true → lt b c = true → lt a c = true
  total : ∀ a ∈ l, ∀ b ∈ l, a ≠ b → lt a b = true ∨ lt b a = true

def sort (l : List α) : List α := l.insertionSort fun a b => lt b a = false

variable {lt} {l : List α}

variable (lt) in
theorem perm_sort (l : List α) : (sort lt l).Perm l := List.perm_insertionSort _ l

namespace OrdersOn

variable (h : OrdersOn lt l)

include h

theorem asymm {a b : α} (ha : a ∈ l) (hb : b ∈ l) (hab : lt a b = true) : lt b a = false := by
  rw [← Bool.not_eq_true]
  intro hba
  have := h.trans a ha b hb a ha hab hba
  rw [h.irrefl a ha] at this
  cases this

theorem perm {l' : List α} (hp : l'.Perm l) : OrdersOn lt l' where
  irrefl a ha := h.irrefl a (hp.mem_iff.mp ha)
  trans a ha b hb c hc := h.trans a (hp.mem_iff.mp ha) b (hp.mem_iff.mp hb) c (hp.mem_iff.mp hc)
  total a ha b hb := h.total a (hp.mem_iff.mp ha) b (hp.mem_iff.mp hb)

/-- The sorted list is in order. The library's lemma wants an order on the whole type, so it is used
on the type of the elements of the list. -/
theorem pairwise_sort (hnodup : l.Nodup) : (sort lt l).Pairwise fun a b => lt a b = true := by
  let r : {a // a ∈ l} → {a // a ∈ l} → Prop := fun a b => lt b.1 a.1 = false
  have hnot : ∀ a b : {a // a ∈ l}, ¬ r a b ↔ lt b.1 a.1 = true := fun a b => by
    show ¬ lt b.1 a.1 = false ↔ _
    simp
  have htotal : Std.Total r := ⟨fun a b => by
    by_contra hab
    rw [not_or, hnot, hnot] at hab
    have := h.asymm a.2 b.2 hab.2
    rw [this] at hab
    cases hab.1⟩
  have htrans : IsTrans _ r := ⟨fun a b c hab hbc => by
    by_contra hac
    rw [hnot] at hac
    by_cases heq : b = c
    · exact absurd hac (by rw [← heq]; simpa using hab)
    · rcases h.total b.1 b.2 c.1 c.2 (fun he => heq (Subtype.ext he)) with hlt | hlt
      · have := h.trans b.1 b.2 c.1 c.2 a.1 a.2 hlt hac
        rw [show lt b.1 a.1 = false from hab] at this
        cases this
      · rw [show lt c.1 b.1 = false from hbc] at hlt
        cases hlt⟩
  have hle : (sort lt l).Pairwise fun a b => lt b a = false := by
    have hmap := map_insertionSort (r := r) (s := fun a b => lt b a = false)
      Subtype.val l.attach fun _ _ _ _ => Iff.rfl
    rw [attach_map_subtype_val] at hmap
    rw [sort, ← hmap, pairwise_map]
    exact pairwise_insertionSort r l.attach
  have hne : (sort lt l).Nodup := (perm_sort lt l).nodup_iff.mpr hnodup
  refine (hle.and hne).imp_of_mem fun {a b} ha hb hab => ?_
  have hlt := h.total a ((perm_sort lt l).mem_iff.mp ha) b ((perm_sort lt l).mem_iff.mp hb) hab.2
  rw [hab.1] at hlt
  exact hlt.resolve_right nofun

/-- In a list in order, the elements before one are those at smaller places. -/
theorem countP_getElem (hs : l.Pairwise fun a b => lt a b = true) (i : Nat) (hi : i < l.length) :
    l.countP (lt · l[i]) = i := by
  induction l generalizing i with
  | nil => cases hi
  | cons a l ih =>
    obtain ⟨hhead, htail⟩ := pairwise_cons.mp hs
    have hl : OrdersOn lt l := {
      irrefl := fun b hb => h.irrefl b (mem_cons_of_mem _ hb)
      trans := fun b hb c hc d hd => h.trans b (mem_cons_of_mem _ hb) c
        (mem_cons_of_mem _ hc) d (mem_cons_of_mem _ hd)
      total := fun b hb c hc => h.total b (mem_cons_of_mem _ hb) c
        (mem_cons_of_mem _ hc) }
    cases i with
    | zero =>
      rw [getElem_cons_zero, countP_eq_zero]
      intro b hb
      rcases mem_cons.mp hb with rfl | hb
      · rw [h.irrefl b mem_cons_self]
        nofun
      · rw [h.asymm mem_cons_self (mem_cons_of_mem _ hb) (hhead b hb)]
        nofun
    | succ i =>
      have hi' : i < l.length := Nat.lt_of_succ_lt_succ hi
      have hbefore : lt a l[i] = true := hhead _ (getElem_mem hi')
      rw [getElem_cons_succ, countP_cons, if_pos hbefore, ih hl htail i hi']

end OrdersOn

/-! ## The table -/

variable [Ord κ] [Std.TransOrd κ] [Std.LawfulEqOrd κ] (name : α → κ)

def enter (t : Std.ExtTreeMap κ Nat compare) (es : List (α × Nat)) : Std.ExtTreeMap κ Nat compare :=
  es.foldl (fun t e => t.insert (name e.1) e.2) t

variable (lt) in
def table (l : List α) : Std.ExtTreeMap κ Nat compare := enter name ∅ (sort lt l).zipIdx

variable {name}

theorem getElem?_enter_of_notMem {es : List (α × Nat)} {t : Std.ExtTreeMap κ Nat compare} {k : κ}
    (h : ∀ e ∈ es, name e.1 ≠ k) : (enter name t es)[k]? = t[k]? := by
  induction es generalizing t with
  | nil => rfl
  | cons e es ih =>
    have hne : name e.1 ≠ k := h e mem_cons_self
    refine (ih fun e' he' => h e' (mem_cons_of_mem _ he')).trans ?_
    rw [Std.ExtTreeMap.getElem?_insert, if_neg fun hc => hne (Std.LawfulEqCmp.eq_of_compare hc)]

theorem getElem?_enter {es : List (α × Nat)} {t : Std.ExtTreeMap κ Nat compare}
    (hd : (es.map (name ·.1)).Nodup) {e : α × Nat} (he : e ∈ es) :
    (enter name t es)[name e.1]? = some e.2 := by
  induction es generalizing t with
  | nil => cases he
  | cons e' es ih =>
    obtain ⟨hnew, hd⟩ := nodup_cons.mp hd
    rw [enter, foldl_cons]
    rcases mem_cons.mp he with rfl | he
    · refine (getElem?_enter_of_notMem fun e' he' heq => hnew ?_).trans ?_
      · exact List.mem_map.mpr ⟨e', he', heq⟩
      · rw [getElem?_insert_self]
    · exact ih hd he

theorem getElem?_table_of_notMem {k : κ} (h : k ∉ l.map name) : (table lt name l)[k]? = none := by
  rw [table, getElem?_enter_of_notMem, getElem?_empty]
  rintro ⟨a, i⟩ he rfl
  exact h (List.mem_map.mpr ⟨a, (perm_sort lt l).mem_iff.mp (fst_mem_of_mem_zipIdx he), rfl⟩)

/-- The table has an element's place in the order. -/
theorem getElem?_table (h : OrdersOn lt l) (hd : (l.map name).Nodup) {a : α} (ha : a ∈ l) :
    (table lt name l)[name a]? = some (l.countP (lt · a)) := by
  have hperm := perm_sort lt l
  obtain ⟨i, hi, rfl⟩ := getElem_of_mem (hperm.mem_iff.mpr ha)
  have hnames : ((sort lt l).map name).Nodup := (hperm.map name).nodup_iff.mpr hd
  have hplace := (h.perm hperm).countP_getElem (h.pairwise_sort hd.of_map) i hi
  rw [hperm.countP_eq] at hplace
  rw [hplace]
  refine getElem?_enter (e := ((sort lt l)[i], i)) ?_ ?_
  · have hmap : (sort lt l).zipIdx.map (name ·.1) = (sort lt l).map name := by
      rw [show (fun e : α × Nat => name e.1) = name ∘ Prod.fst from rfl, ← List.map_map,
        zipIdx_map_fst]
    rw [hmap]
    exact hnames
  · exact mk_mem_zipIdx_iff_getElem?.mpr (getElem?_eq_getElem hi)

end Ranking
