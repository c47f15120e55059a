import BoltDB.Store.Keys

/-!
# Longest common subsequences

`lcs.go`. `best` is the recurrence that the three functions tabulate: `computeLCS` and
`ComputeLCSMatches` keep the whole table, `computeLCSLength` two rows of it, one of which is overwritten.
Both walks go back through the same cells, so the string and the segments come from one list of pairs of
positions (`backtrack`). The starts of the segments differ, so that `sort.Slice` has one result.
-/

namespace BoltDB.Store.Lcs

open Bytes List
open scoped List

/-! ## The recurrence -/

section Recurrence

variable {α : Type} [DecidableEq α] (a b : List α)

/-- The length of a longest common subsequence of the first `i` and the first `j` elements. -/
def best : Nat → Nat → Nat
  | 0, _ => 0
  | _ + 1, 0 => 0
  | i + 1, j + 1 =>
    if a[i]? = b[j]? then best i j + 1 else max (best i (j + 1)) (best (i + 1) j)
termination_by i j => i + j

variable {a b}

@[simp] theorem best_zero (j : Nat) : best a b 0 j = 0 := by rw [best]

@[simp] theorem best_zero_right (i : Nat) : best a b i 0 = 0 := by cases i <;> rw [best]

omit [DecidableEq α] in
/-- A sublist that uses the last element ends with it. -/
theorem sublist_take_succ {l s : List α} {i : Nat} (hi : i < l.length) (h : s <+ l.take (i + 1)) :
    s <+ l.take i ∨ s.getLast? = l[i]? ∧ s.dropLast <+ l.take i := by
  rw [take_add_one, getElem?_eq_getElem hi, sublist_append_iff] at h
  obtain ⟨r, t, rfl, hr, ht⟩ := h
  rcases sublist_singleton.mp ht with rfl | rfl
  · exact .inl (by simpa using hr)
  · exact .inr (by simpa [hi] using hr)

/-- No common subsequence is longer. -/
theorem length_le_best {i j : Nat} (hi : i ≤ a.length) (hj : j ≤ b.length) {s : List α} (ha : s <+ a.take i)
    (hb : s <+ b.take j) : s.length ≤ best a b i j := by
  induction i, j using best.induct (a := a) (b := b) generalizing s with
  | case1 j => simp_all
  | case2 i => simp_all
  | case3 i j heq ih =>
    have hrest {l : List α} {k : Nat} (hk : k < l.length) (h : s <+ l.take (k + 1)) : s.dropLast <+ l.take k := by
      rcases sublist_take_succ hk h with h | h
      · exact s.dropLast_sublist.trans h
      · exact h.2
    have hih := ih (by omega) (by omega) (hrest (by omega) ha) (hrest (by omega) hb)
    rw [length_dropLast] at hih
    rw [best, if_pos heq]
    omega
  | case4 i j hne ihi ihj =>
    rw [best, if_neg hne]
    rcases sublist_take_succ (by omega) ha with h | h
    · exact le_max_of_le_left (ihi (by omega) hj h hb)
    · rcases sublist_take_succ (by omega) hb with h' | h'
      · exact le_max_of_le_right (ihj hi (by omega) ha h')
      · exact absurd (h.1.symm.trans h'.1) hne

end Recurrence

/-! ## The table -/

def maxLCSInputSize : Nat := 10000

/-- One cell. `computeLCS` and `computeLCSLength` take the upper one if it is greater. -/
def cell (equal : Bool) (diagonal up left : Nat) : Nat :=
  if equal then diagonal + 1 else if left < up then up else left

/-- One cell of `ComputeLCSMatches`. -/
def cellMatches (equal : Bool) (diagonal up left : Nat) : Nat :=
  if equal then diagonal + 1 else if left ≤ up then up else left

/-- The loop over the second string: `curr` is filled from the row before. -/
def fillRow (cell : Bool → Nat → Nat → Nat → Nat) (b : Bytes) (x : UInt8) (prev curr : List Nat) : List Nat :=
  (List.range b.length).foldl (fun curr j =>
    curr.set (j + 1) (cell (x == b.getD j 0) (prev.getD j 0) (prev.getD (j + 1) 0) (curr.getD j 0))) curr

def fillTable (cell : Bool → Nat → Nat → Nat → Nat) (a b : Bytes) : List (List Nat) :=
  (List.range a.length).foldl
    (fun dp i => dp.set (i + 1) (fillRow cell b (a.getD i 0) (dp.getD i []) (dp.getD (i + 1) [])))
    (List.replicate (a.length + 1) (List.replicate (b.length + 1) 0))

def look (dp : List (List Nat)) (i j : Nat) : Nat := (dp.getD i []).getD j 0

/-- The pairs of positions that the walk back meets, the last one first. -/
def backtrack (a b : Bytes) (dp : List (List Nat)) : Nat → Nat → List (Nat × Nat)
  | 0, _ => []
  | _ + 1, 0 => []
  | i + 1, j + 1 =>
    if a.getD i 0 = b.getD j 0 then (i, j) :: backtrack a b dp i j
    else if look dp (i + 1) j < look dp i (j + 1) then backtrack a b dp i (j + 1)
    else backtrack a b dp (i + 1) j
termination_by i j => i + j

/-- The walk of `computeLCS`, which fills `lcs` from the end; there are `free` places left. -/
def walk (a b : Bytes) (dp : List (List Nat)) : Nat → Nat → Nat → Bytes → Option Bytes
  | 0, _, _, lcs => some lcs
  | _ + 1, 0, _, lcs => some lcs
  | i + 1, j + 1, free, lcs =>
    if a.getD i 0 = b.getD j 0 then
      if free = 0 then none else walk a b dp i j (free - 1) (lcs.set (free - 1) (a.getD i 0))
    else if look dp (i + 1) j < look dp i (j + 1) then walk a b dp i (j + 1) free lcs
    else walk a b dp (i + 1) j free lcs
termination_by i j => i + j

/-- The string and its length; an index out of range is `none`. -/
def computeLCS (a b : Bytes) : Option (Bytes × Nat) :=
  if maxLCSInputSize < a.length ∨ maxLCSInputSize < b.length then some ([], 0)
  else
    let dp := fillTable cell a b
    let lcsLen := look dp a.length b.length
    if lcsLen = 0 then some ([], 0)
    else (walk a b dp a.length b.length lcsLen (List.replicate lcsLen 0)).map (·, lcsLen)

/-- Two rows that change places. -/
def computeLCSLength (a b : Bytes) : Nat :=
  if maxLCSInputSize < a.length ∨ maxLCSInputSize < b.length then 0
  else
    let zeros := List.replicate (b.length + 1) 0
    let rows := (List.range a.length).foldl
      (fun (prev, curr) i => (fillRow cell b (a.getD i 0) prev curr, prev)) (zeros, zeros)
    rows.1.getD b.length 0

structure LCIMatch where
  value : Bytes
  startA : Nat
  endA : Nat
  startB : Nat
  endB : Nat
  matchLen : Nat

/-- A segment that starts at `start` and has come to `last` with `length` pairs is continued. -/
def group (start last : Nat × Nat) (length : Nat) : List (Nat × Nat) → List ((Nat × Nat) × Nat)
  | [] => [(start, length)]
  | p :: pairs =>
    if p.1 = last.1 + 1 ∧ p.2 = last.2 + 1 then group start p (length + 1) pairs
    else (start, length) :: group p p 1 pairs

def segments : List (Nat × Nat) → List ((Nat × Nat) × Nat)
  | [] => []
  | p :: pairs => group p p 1 pairs

def toMatch (a : Bytes) (seg : (Nat × Nat) × Nat) : LCIMatch where
  value := (a.drop seg.1.1).take seg.2
  startA := seg.1.1
  endA := seg.1.1 + seg.2 - 1
  startB := seg.1.2
  endB := seg.1.2 + seg.2 - 1
  matchLen := seg.2

def computeLCSMatches (a b : Bytes) (minMatchLen : Int) : List LCIMatch :=
  if maxLCSInputSize < a.length ∨ maxLCSInputSize < b.length then []
  else if a.length = 0 ∨ b.length = 0 then []
  else
    let dp := fillTable cellMatches a b
    if look dp a.length b.length = 0 then []
    else
      let pairs := (backtrack a b dp a.length b.length).reverse
      (((segments pairs).filter fun seg => minMatchLen ≤ seg.2).map (toMatch a)).mergeSort
        fun x y => x.startA ≤ y.startA

/-! ## Filling it -/

section Filling

variable {a b : Bytes} {i : Nat} {fill : Bool → Nat → Nat → Nat → Nat}

/-- The row holds the lengths for the first `i` bytes. -/
structure IsRow (a b : Bytes) (i : Nat) (row : List Nat) : Prop where
  length : row.length = b.length + 1
  value : ∀ j ≤ b.length, row.getD j 0 = best a b i j

theorem isRow_zeros : IsRow a b 0 (List.replicate (b.length + 1) 0) where
  length := by simp
  value j hj := by
    simp [getElem?_replicate]
    split <;> rfl

theorem getD_eq_iff {j : Nat} (hi : i < a.length) (hj : j < b.length) :
    a.getD i 0 = b.getD j 0 ↔ a[i]? = b[j]? := by simp [hi, hj]

/-- The rule of a loop that counts up. -/
theorem foldl_range {β : Type} {P : Nat → β → Prop} {f : β → Nat → β} {s : β} (hs : P 0 s) {m : Nat}
    (hstep : ∀ n < m, ∀ r, P n r → P (n + 1) (f r n)) : P m ((List.range m).foldl f s) := by
  induction m with
  | zero => exact hs
  | succ m ih =>
    rw [range_succ, foldl_append]
    exact hstep m m.lt_succ_self _ (ih fun n hn => hstep n (hn.trans m.lt_succ_self))

/-- What the filled row was before does not matter. -/
theorem isRow_fillRow (hfill : ∀ e d u l, fill e d u l = if e then d + 1 else max u l) (hi : i < a.length)
    {k : Nat} {prev curr : List Nat} (hprev : IsRow a b i prev) (hcurr : IsRow a b k curr) :
    IsRow a b (i + 1) (fillRow fill b (a.getD i 0) prev curr) := by
  -- the row is filled up to `n`
  have hrow := foldl_range (m := b.length)
    (P := fun n row => row.length = b.length + 1 ∧ ∀ j ≤ n, row.getD j 0 = best a b (i + 1) j)
    (f := fun row j => row.set (j + 1)
      (fill (a.getD i 0 == b.getD j 0) (prev.getD j 0) (prev.getD (j + 1) 0) (row.getD j 0)))
    (s := curr) ?_ fun n hn row hrow => ?_
  · exact ⟨hrow.1, hrow.2⟩
  · have hzero := hcurr.value 0 (Nat.zero_le _)
    exact ⟨hcurr.length, by simp_all⟩
  · obtain ⟨hlen, hvalue⟩ := hrow
    refine ⟨by rw [length_set, hlen], fun j hj => ?_⟩
    rcases Nat.lt_or_ge j (n + 1) with hlt | hge
    · rw [getD_eq_getElem?_getD, getElem?_set_ne (by omega)]
      exact hvalue j (by omega)
    · obtain rfl : j = n + 1 := by omega
      rw [getD_eq_getElem?_getD, getElem?_set_self (by omega), Option.getD_some, hfill,
        hprev.value _ (by omega), hprev.value _ hn, hvalue _ le_rfl, best]
      simp only [beq_iff_eq, getD_eq_iff hi hn]

theorem look_fillTable (hfill : ∀ e d u l, fill e d u l = if e then d + 1 else max u l) {j : Nat}
    (hi : i ≤ a.length) (hj : j ≤ b.length) : look (fillTable fill a b) i j = best a b i j := by
  -- the rows up to `n` are filled, the others are zero
  have htable := foldl_range (m := a.length)
    (P := fun n dp => dp.length = a.length + 1 ∧
      ∀ i ≤ a.length, IsRow a b (if i ≤ n then i else 0) (dp.getD i []))
    (f := fun dp i => dp.set (i + 1) (fillRow fill b (a.getD i 0) (dp.getD i []) (dp.getD (i + 1) [])))
    (s := List.replicate (a.length + 1) (List.replicate (b.length + 1) 0)) ?_ fun n hn dp hdp => ?_
  · have hrow := htable.2 i hi
    rw [if_pos hi] at hrow
    exact hrow.value j hj
  · refine ⟨by simp, fun i hi => ?_⟩
    have hzero : (if i ≤ 0 then i else 0) = 0 := by split <;> omega
    rw [hzero, getD_eq_getElem?_getD, getElem?_replicate, if_pos (by omega)]
    exact isRow_zeros
  · obtain ⟨hlen, hrow⟩ := hdp
    refine ⟨by rw [length_set, hlen], fun i hi => ?_⟩
    rcases eq_or_ne i (n + 1) with rfl | hne
    · rw [getD_eq_getElem?_getD, getElem?_set_self (by omega), if_pos le_rfl]
      have hprev := hrow n (by omega)
      rw [if_pos le_rfl] at hprev
      exact isRow_fillRow hfill hn hprev (hrow (n + 1) hn)
    · rw [getD_eq_getElem?_getD, getElem?_set_ne (Ne.symm hne)]
      have hsame : (if i ≤ n + 1 then i else 0) = if i ≤ n then i else 0 := by
        split <;> split <;> omega
      rw [hsame]
      exact hrow i hi

theorem cell_eq (e : Bool) (d u l : Nat) : cell e d u l = if e then d + 1 else max u l := by
  simp only [cell]
  split_ifs <;> omega

theorem cellMatches_eq (e : Bool) (d u l : Nat) : cellMatches e d u l = if e then d + 1 else max u l := by
  simp only [cellMatches]
  split_ifs <;> omega

theorem computeLCSLength_eq (ha : a.length ≤ maxLCSInputSize) (hb : b.length ≤ maxLCSInputSize) :
    computeLCSLength a b = best a b a.length b.length := by
  have hrows := foldl_range (m := a.length) (P := fun n rows => IsRow a b n rows.1 ∧ ∃ k, IsRow a b k rows.2)
    (f := fun rows i => (fillRow cell b (a.getD i 0) rows.1 rows.2, rows.1))
    (s := (List.replicate (b.length + 1) 0, List.replicate (b.length + 1) 0))
    ⟨isRow_zeros, 0, isRow_zeros⟩ fun n hn rows ⟨hprev, k, hcurr⟩ =>
      ⟨isRow_fillRow cell_eq hn hprev hcurr, n, hprev⟩
  rw [computeLCSLength, if_neg (by omega)]
  exact hrows.1.value _ le_rfl

end Filling

/-! ## The walk back -/

section Walk

variable {a b : Bytes} {dp : List (List Nat)} {i j : Nat}

theorem length_backtrack (hdp : ∀ i ≤ a.length, ∀ j ≤ b.length, look dp i j = best a b i j) (hi : i ≤ a.length)
    (hj : j ≤ b.length) : (backtrack a b dp i j).length = best a b i j := by
  induction i, j using best.induct (a := a) (b := b) with
  | case1 j => simp [backtrack]
  | case2 i => simp [backtrack]
  | case3 i j heq ih =>
    rw [backtrack, if_pos ((getD_eq_iff hi hj).mpr heq), best, if_pos heq, length_cons,
      ih (by omega) (by omega)]
  | case4 i j hne ihi ihj =>
    rw [backtrack, if_neg (mt (getD_eq_iff hi hj).mp hne), best, if_neg hne, hdp (i + 1) hi j (by omega),
      hdp i (by omega) (j + 1) hj]
    split
    · rw [ihi (by omega) hj]
      omega
    · rw [ihj hi (by omega)]
      omega

theorem mem_backtrack {p : Nat × Nat} (hp : p ∈ backtrack a b dp i j) :
    p.1 < i ∧ p.2 < j ∧ a.getD p.1 0 = b.getD p.2 0 := by
  fun_induction backtrack a b dp i j with
  | case1 | case2 => cases hp
  | case3 i j heq ih =>
    rcases mem_cons.mp hp with rfl | hp
    · exact ⟨by simp, by simp, heq⟩
    · obtain ⟨hi, hj, hval⟩ := ih hp
      exact ⟨by omega, by omega, hval⟩
  | case4 i j hne hlt ih =>
    obtain ⟨hi, hj, hval⟩ := ih hp
    exact ⟨by omega, hj, hval⟩
  | case5 i j hne hlt ih =>
    obtain ⟨hi, hj, hval⟩ := ih hp
    exact ⟨hi, by omega, hval⟩

theorem pairwise_backtrack : (backtrack a b dp i j).Pairwise fun p q => q.1 < p.1 ∧ q.2 < p.2 := by
  fun_induction backtrack a b dp i j with
  | case1 | case2 => exact .nil
  | case3 i j heq ih =>
    refine pairwise_cons.mpr ⟨fun q hq => ?_, ih⟩
    exact ⟨(mem_backtrack hq).1, (mem_backtrack hq).2.1⟩
  | case4 i j hne hlt ih => exact ih
  | case5 i j hne hlt ih => exact ih

/-- Descending positions, read backwards, are a subsequence. -/
theorem map_getD_sublist {v : Bytes} {l : List Nat} {n : Nat} (hn : n ≤ v.length) (hl : l.Pairwise (· > ·))
    (hlt : ∀ k ∈ l, k < n) : l.reverse.map (v.getD · 0) <+ v.take n := by
  induction l generalizing n with
  | nil => simp
  | cons k l ih =>
    obtain ⟨hk, hl⟩ := pairwise_cons.mp hl
    have hkn := hlt k (by simp)
    have hget : v[k]? = some (v.getD k 0) := by simp [show k < v.length by omega]
    have hstep : l.reverse.map (v.getD · 0) ++ [v.getD k 0] <+ v.take (k + 1) := by
      rw [take_add_one, hget]
      exact (ih (by omega) hl hk).append_right _
    rw [reverse_cons, map_append]
    exact hstep.trans (take_sublist_take_left (by omega))

/-- The walk of `computeLCS` writes the bytes of the pairs and fills all places. -/
theorem walk_eq {free : Nat} (done : Bytes) (hfree : (backtrack a b dp i j).length = free) :
    walk a b dp i j free (List.replicate free 0 ++ done) =
      some ((backtrack a b dp i j).reverse.map (fun p => a.getD p.1 0) ++ done) := by
  fun_induction backtrack a b dp i j generalizing free done with
  | case1 | case2 => subst hfree; simp [walk]
  | case3 i j heq ih =>
    subst hfree
    have hset : (List.replicate ((backtrack a b dp i j).length + 1) 0 ++ done).set (backtrack a b dp i j).length
        (a.getD i 0) = List.replicate (backtrack a b dp i j).length 0 ++ (a.getD i 0 :: done) := by
      rw [replicate_succ']
      simp
    rw [walk, if_pos heq, length_cons, Nat.add_sub_cancel, hset, ih _ rfl]
    simp
  | case4 i j hne hlt ih =>
    rw [walk, if_neg hne, if_pos hlt]
    exact ih done hfree
  | case5 i j hne hlt ih =>
    rw [walk, if_neg hne, if_neg hlt]
    exact ih done hfree

end Walk

/-! ## Segments -/

/-- The pairs of a segment. -/
def expand (seg : (Nat × Nat) × Nat) : List (Nat × Nat) :=
  (List.range seg.2).map fun k => (seg.1.1 + k, seg.1.2 + k)

theorem flatMap_group (start : Nat × Nat) (n : Nat) (pairs : List (Nat × Nat)) :
    (group start (start.1 + n, start.2 + n) (n + 1) pairs).flatMap expand = expand (start, n + 1) ++ pairs := by
  induction pairs generalizing start n with
  | nil => simp [group]
  | cons p pairs ih =>
    rw [group]
    split
    · next hp =>
      have heq : p = (start.1 + (n + 1), start.2 + (n + 1)) := Prod.ext hp.1 hp.2
      rw [heq, ih start (n + 1)]
      simp [expand, range_succ]
    · have hone := ih p 0
      simp only [Nat.add_zero, Nat.zero_add, Prod.eta] at hone
      rw [flatMap_cons, hone]
      simp [expand]

theorem flatMap_segments (pairs : List (Nat × Nat)) : (segments pairs).flatMap expand = pairs := by
  cases pairs with
  | nil => rfl
  | cons p pairs =>
    have h := flatMap_group p 0 pairs
    simp only [Nat.add_zero, Nat.zero_add, Prod.eta] at h
    rw [segments, h]
    simp [expand]

variable {pairs : List (Nat × Nat)}

theorem pos_of_mem_group {start last : Nat × Nat} {n : Nat} (hn : 0 < n) {seg : (Nat × Nat) × Nat}
    (h : seg ∈ group start last n pairs) : 0 < seg.2 := by
  induction pairs generalizing start last n with
  | nil =>
    rw [mem_singleton.mp h]
    exact hn
  | cons p pairs ih =>
    rw [group] at h
    split at h
    · exact ih (Nat.succ_pos n) h
    · rcases mem_cons.mp h with rfl | h
      · exact hn
      · exact ih Nat.one_pos h

theorem pos_of_mem_segments {seg : (Nat × Nat) × Nat} (h : seg ∈ segments pairs) : 0 < seg.2 := by
  cases pairs with
  | nil => cases h
  | cons p pairs => exact pos_of_mem_group Nat.one_pos h

/-- What the segments of a longest common subsequence are: in order and apart in both strings, equal, and of
this length together. -/
structure Segments (a b : Bytes) (length : Nat) (matches' : List LCIMatch) : Prop where
  ordered : matches'.Pairwise fun x y => x.endA < y.startA ∧ x.endB < y.startB
  bounds : ∀ m ∈ matches', 0 < m.matchLen ∧ m.endA + 1 = m.startA + m.matchLen ∧
    m.endB + 1 = m.startB + m.matchLen ∧ m.endA < a.length ∧ m.endB < b.length
  equal : ∀ m ∈ matches', m.value = (a.drop m.startA).take m.matchLen ∧
    m.value = (b.drop m.startB).take m.matchLen
  total : (matches'.map (·.matchLen)).sum = length

theorem segments_toMatch {a b : Bytes} (hlt : pairs.Pairwise fun p q => p.1 < q.1 ∧ p.2 < q.2)
    (hmem : ∀ p ∈ pairs, p.1 < a.length ∧ p.2 < b.length ∧ a.getD p.1 0 = b.getD p.2 0) :
    Segments a b pairs.length ((segments pairs).map (toMatch a)) := by
  have hflat := flatMap_segments pairs
  have hexpand (seg : (Nat × Nat) × Nat) (k : Nat) (hk : k < seg.2) : (seg.1.1 + k, seg.1.2 + k) ∈ expand seg :=
    mem_map_of_mem (mem_range.mpr hk)
  have hin (seg : (Nat × Nat) × Nat) (hseg : seg ∈ segments pairs) (k : Nat) (hk : k < seg.2) :=
    hmem (seg.1.1 + k, seg.1.2 + k) (hflat ▸ mem_flatMap_of_mem hseg (hexpand seg k hk))
  refine ⟨?_, ?_, ?_, ?_⟩
  · rw [← hflat, pairwise_flatMap] at hlt
    refine pairwise_map.mpr (hlt.2.imp_of_mem fun {x y} hx hy hxy => ?_)
    -- the last pair of one segment comes before the first pair of the next
    have hxpos := pos_of_mem_segments hx
    have hends := hxy _ (hexpand x (x.2 - 1) (by omega)) _ (hexpand y 0 (pos_of_mem_segments hy))
    simp only [toMatch]
    omega
  · intro m hm
    obtain ⟨seg, hseg, rfl⟩ := mem_map.mp hm
    have hpos := pos_of_mem_segments hseg
    have hend := hin seg hseg (seg.2 - 1) (by omega)
    simp only [toMatch]
    omega
  · intro m hm
    obtain ⟨seg, hseg, rfl⟩ := mem_map.mp hm
    refine ⟨rfl, ext_getElem? fun k => ?_⟩
    simp only [toMatch, getElem?_take, getElem?_drop]
    split
    · next hk =>
      obtain ⟨hka, hkb, heq⟩ := hin seg hseg k hk
      exact (getD_eq_iff hka hkb).mp heq
    · rfl
  · have hlength := congrArg List.length hflat
    simpa [Function.comp_def, toMatch, expand] using hlength

theorem computeLCSMatches_segments {a b : Bytes} (ha : a.length ≤ maxLCSInputSize) (hb : b.length ≤ maxLCSInputSize)
    {minMatchLen : Int} (hmin : minMatchLen ≤ 1) :
    Segments a b (best a b a.length b.length) (computeLCSMatches a b minMatchLen) := by
  have hdp (i : Nat) (hi : i ≤ a.length) (j : Nat) (hj : j ≤ b.length) :=
    look_fillTable (a := a) (b := b) cellMatches_eq hi hj
  have hempty (h : best a b a.length b.length = 0) : Segments a b (best a b a.length b.length) [] :=
    ⟨.nil, by simp, by simp, by simp [h]⟩
  rw [computeLCSMatches, if_neg (by omega)]
  dsimp only
  rw [hdp _ le_rfl _ le_rfl]
  split
  · next h => exact hempty (by rcases h with h | h <;> simp [h])
  split
  · next h => exact hempty h
  have hall (pairs : List (Nat × Nat)) :
      (segments pairs).filter (fun seg => minMatchLen ≤ seg.2) = segments pairs := by
    apply filter_eq_self.mpr
    intro seg hseg
    have hpos := pos_of_mem_segments hseg
    simp only [decide_eq_true_eq]
    omega
  have hseg : Segments a b _ ((segments (backtrack a b (fillTable cellMatches a b) a.length b.length).reverse).map
      (toMatch a)) := segments_toMatch (pairwise_reverse.mpr pairwise_backtrack)
    (fun p hp => mem_backtrack (mem_reverse.mp hp))
  rw [length_reverse, length_backtrack hdp le_rfl le_rfl] at hseg
  rw [hall, mergeSort_of_pairwise]
  · exact hseg
  · refine hseg.ordered.imp_of_mem fun {x y} hx _ hxy => ?_
    have hbounds := hseg.bounds x hx
    simp only [decide_eq_true_eq]
    omega

/-- **Longest common subsequences**, for all strings within the limit. -/
theorem lcs_correct (a b : Bytes) (ha : a.length ≤ maxLCSInputSize) (hb : b.length ≤ maxLCSInputSize) :
    ∃ s, computeLCS a b = some (s, s.length) ∧ s <+ a ∧ s <+ b ∧
      (∀ t, t <+ a → t <+ b → t.length ≤ s.length) ∧ computeLCSLength a b = s.length ∧
      ∀ minMatchLen ≤ 1, Segments a b s.length (computeLCSMatches a b minMatchLen) := by
  have hdp (i : Nat) (hi : i ≤ a.length) (j : Nat) (hj : j ≤ b.length) :=
    look_fillTable (a := a) (b := b) cell_eq hi hj
  have hlen := length_backtrack hdp le_rfl le_rfl
  generalize hpairs : backtrack a b (fillTable cell a b) a.length b.length = pairs at hlen
  have hmem {p : Nat × Nat} (hp : p ∈ pairs) := mem_backtrack (hpairs ▸ hp)
  have hdesc : pairs.Pairwise fun p q => q.1 < p.1 ∧ q.2 < p.2 := hpairs ▸ pairwise_backtrack
  have hsub : (pairs.reverse.map fun p => a.getD p.1 0) <+ a := by
    have h := map_getD_sublist (v := a) (l := pairs.map Prod.fst) le_rfl
      (pairwise_map.mpr (hdesc.imp And.left)) (by simpa using fun k l h => (hmem h).1)
    rwa [← map_reverse, map_map, take_length] at h
  have hsub' : (pairs.reverse.map fun p => a.getD p.1 0) <+ b := by
    have h := map_getD_sublist (v := b) (l := pairs.map Prod.snd) le_rfl
      (pairwise_map.mpr (hdesc.imp And.right)) (by simpa using fun k l h => (hmem h).2.1)
    rw [map_congr_left fun p hp => (hmem (mem_reverse.mp hp)).2.2]
    rwa [← map_reverse, map_map, take_length] at h
  refine ⟨pairs.reverse.map fun p => a.getD p.1 0, ?_, hsub, hsub', fun t hta htb => ?_, ?_, fun _ hmin => ?_⟩
  · rw [computeLCS, if_neg (by omega)]
    simp only [hdp _ le_rfl _ le_rfl, length_map, length_reverse, hlen]
    split
    · next h =>
      rw [h] at hlen
      simp [length_eq_zero_iff.mp hlen, h]
    · have hwalk := walk_eq [] (hpairs ▸ hlen)
      rw [append_nil, hpairs, append_nil] at hwalk
      rw [hwalk]
      rfl
  · rw [length_map, length_reverse, hlen]
    exact length_le_best le_rfl le_rfl (by simpa using hta) (by simpa using htb)
  · simpa [hlen] using computeLCSLength_eq ha hb
  · simpa [hlen] using computeLCSMatches_segments ha hb hmin

theorem lcs_correct_small :
    (ascii "abcbdab").length ≤ maxLCSInputSize ∧ (ascii "bdcaba").length ≤ maxLCSInputSize ∧
      ∃ s, computeLCS (ascii "abcbdab") (ascii "bdcaba") = some (s, s.length) := by
  have ha : "abcbdab".length ≤ maxLCSInputSize := by decide
  have hb : "bdcaba".length ≤ maxLCSInputSize := by decide
  obtain ⟨s, hs, -⟩ := lcs_correct "abcbdab" "bdcaba" ha hb
  exact ⟨ha, hb, s, hs⟩

end BoltDB.Store.Lcs
