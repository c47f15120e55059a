import BoltDB.Store.ZSetRecords

/-!
# The options of `ZADD`

`ZAddWithOptions` and the rules of Redis. Three things set them apart: with `INCR`, the options `GT`
and `LT` compare the old score with the increment and not with the score it leads to; `CH` counts
the members that are written, whether or not their scores change; and negative zero reads back as a
NaN.

`ZAddOptions.Harmless` says of a member, by its number in the command and its old score alone, that
none of the three shows. Redis refuses a NaN, the code stores it; the rules are about the other
numbers (`ZAddOptions.Numbers`).
-/

namespace BoltDB.Store.SortedSets

open Bytes KeyValue List

/-- What a score reads as once it is written. -/
def readBack (x : F64) : F64 := decodeScore (encodeScore x)

/-- The score that a member has. -/
def score? (key m : Bytes) (db : Db) : Option F64 := (oldOf key m db).map Prod.fst

namespace ZAddOptions

/-- The score for a member with an old one. -/
def target (o : ZAddOptions) (score old : F64) : F64 := if o.incr then old.add score else score

/-- A number is on the side of the old score that `GT` and `LT` ask for. By the rules it is the new
score that has to be. -/
def wants (o : ZAddOptions) (new old : F64) : Bool := (!o.gt || old.lt new) && (!o.lt || new.lt old)

/-- Whether the code gives a member with an old score the new one; it looks at the number in the
command. -/
def takes (o : ZAddOptions) (score old : F64) : Bool :=
  !(o.gt && score.le old || o.lt && old.le score)

/-- The score that the rules of Redis leave a member with. -/
def ruled (o : ZAddOptions) (score : F64) : Option F64 → Option F64
  | none => if o.xx then none else some score
  | some old =>
    some (if !o.nx && o.wants (o.target score old) old then o.target score old else old)

/-- Nothing sets the code apart from the rules at a member. A new member is not given negative zero.
An old one is on the side that is asked for with the number in the command exactly if it is with the
new score, but that the new score may be the old one without `CH`; and it, too, is not given negative
zero. -/
def Harmless (o : ZAddOptions) (score : F64) : Option F64 → Prop
  | none => o.xx = true ∨ score ≠ .negZero
  | some old => o.nx = true ∨
      (o.wants (o.target score old) old = true → o.wants score old = true) ∧
      (o.wants score old = true → o.target score old ≠ .negZero ∧
        (o.wants (o.target score old) old = true ∨ o.target score old = old) ∧
        (o.ch = true → o.target score old ≠ old))

/-- The number in the command, the old score and the new one are no NaN. -/
def Numbers (o : ZAddOptions) (score : F64) (old : Option F64) : Prop :=
  score.isNaN = false ∧ ∀ s ∈ old, s.isNaN = false ∧ (o.target score s).isNaN = false

/-- The members added or, with `CH`, those whose score is another one. -/
def reply (o : ZAddOptions) (key : Bytes) (ms : List (Bytes × F64)) (before after : Db) : Nat :=
  ms.countP fun m =>
    if o.ch then score? key m.1 after ≠ score? key m.1 before
    else score? key m.1 before = none ∧ score? key m.1 after ≠ none

/-- The scores and the reply are those of the rules. -/
def Follows (o : ZAddOptions) (now : Nat) (key : Bytes) (ms : List (Bytes × F64)) (db : Db) : Prop :=
  ∃ n db', zAddWithOptions now key o ms db = (.ok n, db') ∧
    (∀ m ∈ ms, score? key m.1 db' = o.ruled m.2 (score? key m.1 (visible (unix now) db))) ∧
    n = o.reply key ms (visible (unix now) db) db'

/-- The score that the code leaves a member with. -/
def final (o : ZAddOptions) (score : F64) (old : Option (F64 × UInt32)) : Option F64 :=
  ((planWithOptions o score old).map readBack).or (old.map Prod.fst)

/-- What the code replies. -/
def counted (o : ZAddOptions) (ops : List ZOp) : Nat :=
  if o.ch then ops.length else ops.countP (·.old.isNone)

variable {o : ZAddOptions} {score : F64} {old : Option (F64 × UInt32)}

theorem planWithOptions_some (o : ZAddOptions) (score old : F64) (v : UInt32) :
    planWithOptions o score (some (old, v)) =
      if !o.nx && o.takes score old then some (o.target score old) else none := by
  unfold planWithOptions takes target
  cases o.nx <;> cases o.incr <;> simp <;> grind

theorem readBack_eq_self {x : F64} (hx : x.isNaN = false) (hzero : x ≠ .negZero) :
    readBack x = x := by
  obtain ⟨b⟩ := x
  have hnan : b.toNat % 2 ^ 63 ≤ 2047 * 2 ^ 52 := not_lt.mp (of_decide_eq_false hx)
  have hne : b.toNat ≠ 2 ^ 63 := fun h => hzero (congrArg F64.mk (UInt64.toNat_inj.mp h))
  have hscore := toNat_scoreBits b
  have hback := toNat_unscoreBits (scoreBits ⟨b⟩)
  have hb := b.toNat_lt
  rw [readBack, decodeScore_encodeScore, F64.mk.injEq, ← UInt64.toNat_inj]
  omega

/-- Negative zero is read back as a NaN, hence never as the score of a member that has a number. -/
theorem readBack_eq_iff {x y : F64} (hx : x.isNaN = false) (hy : y.isNaN = false) :
    readBack x = y ↔ x ≠ .negZero ∧ x = y := by
  by_cases hzero : x = .negZero
  · have hnan : (readBack .negZero).isNaN = true := by decide +kernel
    subst hzero
    refine iff_of_false ?_ (by simp)
    rintro rfl
    rw [hnan] at hy
    cases hy
  · rw [readBack_eq_self hx hzero]
    simp [hzero]

/-- But for NaNs, what the code asks of the number in the command is what the rules ask of the new
score. -/
theorem takes_eq_wants {x y : F64} (hx : x.isNaN = false) (hy : y.isNaN = false) :
    o.takes x y = o.wants x y := by
  simp only [takes, wants, F64.lt, F64.le, hx, hy, Bool.not_or, Bool.not_and, Bool.not_false,
    Bool.true_and, ← decide_not, Int.not_le]

/-- The old score itself is on the side asked for only where none is. -/
theorem wants_of_wants_self {x y : F64} (h : o.wants y y = true) : o.wants x y = true := by
  have hlt : y.lt y = false := by simp [F64.lt]
  rw [wants, hlt] at h
  rw [wants]
  cases hgt : o.gt <;> cases hlt' : o.lt <;> simp_all

theorem harmless_iff (hnum : o.Numbers score (old.map Prod.fst)) :
    o.Harmless score (old.map Prod.fst) ↔
      o.final score old = o.ruled score (old.map Prod.fst) ∧
        (o.ch = true → (planWithOptions o score old).isSome →
          o.final score old ≠ old.map Prod.fst) := by
  obtain ⟨hscore, hold⟩ := hnum
  cases old with
  | none =>
    cases hxx : o.xx <;>
      simp [Harmless, final, ruled, planWithOptions, hxx, readBack_eq_iff hscore hscore]
  | some old =>
    obtain ⟨hold, htarget⟩ := hold old.1 rfl
    rw [final, planWithOptions_some, takes_eq_wants hscore hold]
    simp only [Harmless, ruled, Option.map_some]
    have hself := @wants_of_wants_self o score old.1
    have hsame := readBack_eq_iff htarget htarget
    have hback := readBack_eq_iff htarget hold
    generalize o.target score old.1 = new at htarget hsame hback ⊢
    cases hnx : o.nx
    · cases hwants : o.wants score old.1 <;> cases hnew : o.wants new old.1 <;>
        simp [hsame, hback] <;> grind
    · simp

end ZAddOptions

/-! ## Runs -/

variable {key : Bytes} {db : Db} {ms : List (Bytes × F64)} {mt : Option Meta}

theorem forM_writeZOp_ok (key : Bytes) (version : UInt32) (mark : Bytes) (ops : List ZOp) (db : Db) :
    ∃ db', ops.forM (writeZOp key version mark) db = .ok ((), db') := by
  induction ops generalizing db with
  | nil => exact ⟨db, rfl⟩
  | cons op ops ih =>
    have hop : ∃ db', writeZOp key version mark op db = .ok ((), db') := by
      unfold writeZOp
      cases op.old <;> exact ⟨_, rfl⟩
    obtain ⟨db₁, hop⟩ := hop
    obtain ⟨db', h⟩ := ih db₁
    exact ⟨db', (Txn.bind_of_ok hop).trans h⟩

theorem zAddPlanned_ok (mark : Bytes) (plan : F64 → Option (F64 × UInt32) → Option F64)
    (htype : checkKeyTypeInline key .sortedSet db = .ok ()) (hmeta : getMeta key db = .ok mt)
    (hdistinct : (ms.map Prod.fst).Nodup) :
    ∃ db', zAddPlanned key mark plan ms db = .ok (ms.filterMap (zOp key db plan), db') ∧
      ∀ m ∈ ms, score? key m.1 db' =
        ((plan m.2 (oldOf key m.1 db)).map readBack).or (score? key m.1 db) := by
  have hold : ∀ e m, oldOf key m (db.insert (typeOfKeyGet key) e) = oldOf key m db :=
    fun e m => oldOf_insert (.inr rfl) m
  have hplan : ∀ e, zOp key (db.insert (typeOfKeyGet key) e) plan = zOp key db plan := fun e => by
    funext m
    rw [zOp, hold, zOp]
  obtain ⟨db', hwrite⟩ := forM_writeZOp_ok key ((mt.getD ⟨0, 0⟩).version + 1) mark
    (ms.filterMap (zOp key db plan)) _
  refine ⟨db', ?_, fun m hm => ?_⟩
  · refine Txn.lift_bind_eq_ok.mpr ⟨(), htype, ?_⟩
    refine Txn.lift_bind_eq_ok.mpr ⟨mt, (getMeta_insert_type key db _).trans hmeta, ?_⟩
    refine Txn.lift_bind_eq_ok.mpr ⟨_, foldlM_plan, ?_⟩
    rw [Txn.set_bind, hplan]
    exact Txn.bind_eq_ok.mpr ⟨(), db', hwrite, rfl⟩
  · obtain ⟨-, -, -, hin, hout⟩ := forM_writeZOp (planned_sublist.nodup hdistinct)
      (fun op hop => by rw [oldOf_insert (.inl rfl), hold]; exact old_of_mem hop) hwrite
    cases hp : plan m.2 (oldOf key m.1 db) with
    | some x =>
      have hop : zOp key db plan m = some ⟨m.1, x, oldOf key m.1 db⟩ := by rw [zOp, hp]; rfl
      rw [score?, hin _ (mem_filterMap.mpr ⟨m, hm, hop⟩)]
      rfl
    | none =>
      rw [score?, hout m.1, oldOf_insert (.inl rfl), hold]
      · rfl
      -- another member of the call would have to be the same one
      · rintro hmem
        obtain ⟨op, hop, heq⟩ := mem_map.mp hmem
        obtain ⟨m', hm', hop⟩ := mem_filterMap.mp hop
        obtain ⟨x, hx, rfl⟩ := Option.map_eq_some_iff.mp hop
        obtain rfl := inj_on_of_nodup_map hdistinct hm' hm heq
        rw [hp] at hx
        cases hx

theorem countP_eq_iff {α : Type} {p q : α → Bool} {l : List α} (h : ∀ a ∈ l, q a → p a) :
    l.countP p = l.countP q ↔ ∀ a ∈ l, p a → q a := by
  induction l with
  | nil => simp
  | cons a l ih =>
    have hle : l.countP q ≤ l.countP p := countP_mono_left fun b hb => h b (mem_cons_of_mem a hb)
    have ha := h a mem_cons_self
    rw [forall_mem_cons, ← ih fun b hb => h b (mem_cons_of_mem a hb), countP_cons, countP_cons]
    cases hp : p a <;> cases hq : q a
    · simp
    · exact absurd (ha hq) (by simp [hp])
    · simp
      omega
    · simp

theorem reply_eq_iff {o : ZAddOptions} {before after : Db}
    (hfinal : ∀ m ∈ ms, score? key m.1 after = o.final m.2 (oldOf key m.1 before)) :
    o.counted (ms.filterMap (zOp key before (planWithOptions o))) = o.reply key ms before after ↔
      (o.ch = true → ∀ m ∈ ms, (planWithOptions o m.2 (oldOf key m.1 before)).isSome →
        o.final m.2 (oldOf key m.1 before) ≠ score? key m.1 before) := by
  rw [ZAddOptions.counted, ZAddOptions.reply]
  cases o.ch with
  | false =>
    refine iff_of_true ?_ (by simp)
    rw [countP_filterMap]
    refine countP_congr fun m hm => ?_
    rw [hfinal m hm, zOp, ZAddOptions.final, score?]
    cases oldOf key m.1 before <;> cases planWithOptions o m.2 _ <;> simp
  | true =>
    -- a member that is not planned keeps its score
    rw [if_pos rfl, length_filterMap_eq_countP, countP_eq_iff]
    · simp +contextual [hfinal, zOp]
    · intro m hm
      rw [hfinal m hm, zOp, ZAddOptions.final, score?]
      cases planWithOptions o m.2 (oldOf key m.1 before) <;> simp

/-- The store after `ZADD k 1 a`. -/
def single : Db := (zAdd 0 "k" [("a", F64.one)] ∅).2

end BoltDB.Store.SortedSets
