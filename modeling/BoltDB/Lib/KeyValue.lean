import BoltDB.Lib.Bytes

/-!
# Transactions on an ordered key-value store

A store maps byte keys to entries with an expiry time, in byte order. Programs over it come in three
monads: a `View` reads, a `Txn` reads and writes, and both may fail with an error, which undoes a
transaction; a `Run` is a sequence of them at one time.

* `Reads` — a view looks at some keys only.
* `Writes` — every key a transaction changes gets an entry that satisfies a predicate.
* `Commits` — the same for what can be seen after a run.
* `Keeps` — a run keeps an invariant.

All are closed under the constructs programs are written with, so that a program's footprint is
read off its text.

The store stands for badger, with two things left out: a transaction does not fail because it has become
too big, and all reads of one transaction see the entries that are live at one time, where badger asks the
clock at every read.
-/

namespace KeyValue

open Bytes Std.ExtTreeMap

/-! ## Stores -/

/-- `expiresAt` is a Unix time in seconds, 0 for an entry that does not expire. -/
structure Entry where
  value : Bytes
  expiresAt : Nat
  deriving DecidableEq

abbrev Db := Std.ExtTreeMap Bytes Entry compare

/-- An entry is hidden from its expiry time on. -/
def Entry.live (now : Nat) (e : Entry) : Bool := e.expiresAt = 0 || now < e.expiresAt

/-- What can be seen of a store at a time. -/
def visible (now : Nat) (db : Db) : Db := db.filter fun _ e => e.live now

/-- The entries whose key has a prefix, in key order. -/
def scan (pre : Bytes) (db : Db) : List (Bytes × Entry) := db.toList.filter (pre.isPrefixOf ·.1)

theorem getElem?_visible (now : Nat) (db : Db) (k : Bytes) :
    (visible now db)[k]? = db[k]?.filter (Entry.live now) := by
  rw [visible, getElem?_filter']

variable {db : Db}

theorem mem_scan {pre : Bytes} {e : Bytes × Entry} :
    e ∈ scan pre db ↔ db[e.1]? = some e.2 ∧ pre <+: e.1 := by
  rw [scan, List.mem_filter, mem_toList_iff_getElem?_eq_some, List.isPrefixOf_iff_prefix]

theorem sorted_scan (pre : Bytes) (db : Db) :
    (scan pre db).Pairwise fun e f => compare e.1 f.1 = .lt :=
  ordered_keys_toList.filter _

theorem compare_eq_iff {k p : Bytes} : compare k p = .eq ↔ p = k :=
  ⟨fun h => (Std.LawfulEqCmp.eq_of_compare h).symm, fun h => h ▸ Std.ReflCmp.compare_self⟩

theorem getElem?_insert_ite {α : Type*} (db : Std.ExtTreeMap Bytes α compare) (k p : Bytes) (e : α) :
    (db.insert k e)[p]? = if p = k then some e else db[p]? := by
  rw [getElem?_insert]
  simp only [compare_eq_iff]

theorem getElem?_erase_ite {α : Type*} (db : Std.ExtTreeMap Bytes α compare) (k p : Bytes) :
    (db.erase k)[p]? = if p = k then none else db[p]? := by
  rw [getElem?_erase]
  simp only [compare_eq_iff]

theorem mem_insert_iff {k p : Bytes} {e : Entry} : p ∈ db.insert k e ↔ p = k ∨ p ∈ db := by
  rw [mem_iff_isSome_getElem?, mem_iff_isSome_getElem?, getElem?_insert_ite]
  split <;> simp [*]

theorem mem_erase_iff {k p : Bytes} : p ∈ db.erase k ↔ p ≠ k ∧ p ∈ db := by
  rw [mem_iff_isSome_getElem?, mem_iff_isSome_getElem?, getElem?_erase_ite]
  split <;> simp [*]

theorem isPrefixOf_eq_false {pre k : Bytes} (h : ¬ pre <+: k) : pre.isPrefixOf k = false := by
  rwa [← Bool.not_eq_true, List.isPrefixOf_iff_prefix]

/-- A scan depends on the keys with the prefix only. -/
theorem scan_congr {pre : Bytes} {db' : Db} (h : ∀ k, pre <+: k → db[k]? = db'[k]?) :
    scan pre db = scan pre db' := by
  have hscan : ∀ db : Db, scan pre db = (db.filter fun k _ => pre.isPrefixOf k).toList := by
    intro db
    rw [toList_filter]
    rfl
  rw [hscan, hscan]
  congr 1
  apply ext_getElem?
  intro k
  rw [getElem?_filter', getElem?_filter']
  by_cases hk : pre <+: k
  · rw [h k hk]
  · rw [isPrefixOf_eq_false hk]
    cases db[k]? <;> cases db'[k]? <;> rfl

/-! ## Programs -/

/-- A read-only transaction. -/
def View (ε α : Type) : Type := Db → Except ε α

/-- A read-write transaction. -/
def Txn (ε α : Type) : Type := Db → Except ε (α × Db)

variable {ε α β γ : Type}

namespace View

instance : Monad (View ε) where
  pure a := fun _ => .ok a
  bind m f := fun db =>
    match m db with
    | .ok a => f a db
    | .error e => .error e

instance : MonadExceptOf ε (View ε) where
  throw e := fun _ => .error e
  tryCatch m h := fun db =>
    match m db with
    | .ok a => .ok a
    | .error e => h e db

theorem bind_apply (m : View ε α) (f : α → View ε β) (db : Db) :
    (m >>= f) db = match m db with | .ok a => f a db | .error e => .error e := rfl

variable {db : Db} {l : List α} {f : α → View ε β}

theorem bind_of_ok {m : View ε α} {a : α} (h : m db = .ok a) :
    (m >>= f) db = f a db := by rw [bind_apply, h]

instance : LawfulMonad (View ε) := LawfulMonad.mk' _
  (fun x => by
    funext db
    show (match x db with | .ok a => .ok a | .error e => .error e) = x db
    cases x db <;> rfl)
  (fun _ _ => rfl)
  (fun x f g => by
    funext db
    simp only [bind_apply]
    cases x db <;> rfl)

theorem bind_eq_ok {m : View ε α} {b : β} :
    (m >>= f) db = .ok b ↔ ∃ a, m db = .ok a ∧ f a db = .ok b := by
  rw [bind_apply]
  cases m db <;> simp

/-- A view for every element of a list: the results stand where the elements stand. -/
theorem mapM_getElem? {bs : List β} (h : l.mapM f db = .ok bs) {i : Nat} {a : α}
    (ha : l[i]? = some a) : ∃ b, f a db = .ok b ∧ bs[i]? = some b := by
  induction l generalizing bs i with
  | nil => simp at ha
  | cons x l ih =>
    rw [List.mapM_cons] at h
    obtain ⟨y, hy, h⟩ := bind_eq_ok.mp h
    obtain ⟨ys, hys, h⟩ := bind_eq_ok.mp h
    cases h
    cases i with
    | zero =>
      cases ha
      exact ⟨y, hy, rfl⟩
    | succ i => exact ih hys ha

theorem mapM_ok_iff : (∃ bs, l.mapM f db = .ok bs) ↔ ∀ a ∈ l, ∃ b, f a db = .ok b := by
  induction l with
  | nil => exact ⟨fun _ => nofun, fun _ => ⟨[], rfl⟩⟩
  | cons a l ih =>
    rw [List.forall_mem_cons, ← ih, List.mapM_cons]
    constructor
    · rintro ⟨_, h⟩
      obtain ⟨b, hb, h⟩ := bind_eq_ok.mp h
      obtain ⟨bs, hbs, -⟩ := bind_eq_ok.mp h
      exact ⟨⟨b, hb⟩, bs, hbs⟩
    · rintro ⟨⟨b, hb⟩, bs, hbs⟩
      exact ⟨b :: bs, bind_eq_ok.mpr ⟨b, hb, bind_eq_ok.mpr ⟨bs, hbs, rfl⟩⟩⟩

theorem mem_of_mapM {bs : List β} (h : l.mapM f db = .ok bs) {b : β} :
    b ∈ bs ↔ ∃ a ∈ l, f a db = .ok b := by
  induction l generalizing bs with
  | nil =>
    cases h
    simp
  | cons a l ih =>
    rw [List.mapM_cons] at h
    obtain ⟨b', hb', h⟩ := bind_eq_ok.mp h
    obtain ⟨bs', hbs', h⟩ := bind_eq_ok.mp h
    cases h
    have hhead : b = b' ↔ f a db = .ok b :=
      ⟨fun heq => heq ▸ hb', fun hb => Except.ok.inj (hb.symm.trans hb')⟩
    rw [List.mem_cons, ih hbs', hhead]
    simp only [List.mem_cons, exists_eq_or_imp]

/-- A fold that takes some of the elements, in order. -/
theorem foldlM_sublist {f : List α → α → View ε (List α)}
    (hf : ∀ acc a acc', f acc a db = .ok acc' → acc' = acc ∨ acc' = acc ++ [a]) {acc r : List α}
    (h : l.foldlM f acc db = .ok r) : ∃ new, r = acc ++ new ∧ new.Sublist l := by
  induction l generalizing acc with
  | nil =>
    cases h
    exact ⟨[], (List.append_nil _).symm, List.Sublist.refl _⟩
  | cons a l ih =>
    obtain ⟨acc', hstep, h⟩ := bind_eq_ok.mp h
    obtain ⟨new, rfl, hnew⟩ := ih h
    rcases hf acc a acc' hstep with rfl | rfl
    · exact ⟨new, rfl, hnew.cons a⟩
    · exact ⟨a :: new, by simp, hnew.cons_cons a⟩

/-- The entry of a key. -/
def get (k : Bytes) : View ε (Option Entry) := fun db => .ok db[k]?

/-- The entries with a prefix, in key order. -/
def scan (pre : Bytes) : View ε (List (Bytes × Entry)) := fun db => .ok (KeyValue.scan pre db)

end View

namespace Txn

instance : Monad (Txn ε) where
  pure a := fun db => .ok (a, db)
  bind m f := fun db =>
    match m db with
    | .ok (a, db') => f a db'
    | .error e => .error e

instance : MonadExceptOf ε (Txn ε) where
  throw e := fun _ => .error e
  tryCatch m h := fun db =>
    match m db with
    | .ok r => .ok r
    | .error e => h e db

theorem bind_apply (m : Txn ε α) (f : α → Txn ε β) (db : Db) :
    (m >>= f) db = match m db with | .ok (a, db') => f a db' | .error e => .error e := rfl

variable {db : Db} {l : List α} {m : View ε α} {a : α} {f : α → Txn ε β} {db' : Db}

theorem bind_of_ok {m : Txn ε α} (h : m db = .ok (a, db')) :
    (m >>= f) db = f a db' := by rw [bind_apply, h]

theorem bind_eq_ok {m : Txn ε α} {b : β} :
    (m >>= f) db = .ok (b, db') ↔ ∃ a db₁, m db = .ok (a, db₁) ∧ f a db₁ = .ok (b, db') := by
  rw [bind_apply]
  rcases m db with _ | ⟨a, db₁⟩ <;> simp

/-- A view as a part of a transaction; it sees the transaction's own writes. -/
def ofView (m : View ε α) : Txn ε α := fun db =>
  match m db with
  | .ok a => .ok (a, db)
  | .error e => .error e

theorem ofView_eq_ok : ofView m db = .ok (a, db') ↔ m db = .ok a ∧ db' = db := by
  rw [ofView]
  cases m db <;> simp [eq_comm]

instance : MonadLift (View ε) (Txn ε) := ⟨ofView⟩

theorem lift_bind_eq_ok {b : β} : ((liftM m : Txn ε α) >>= f) db = .ok (b, db') ↔
      ∃ a, m db = .ok a ∧ f a db = .ok (b, db') := by
  rw [bind_eq_ok]
  constructor
  · rintro ⟨a, db₁, hm, hf⟩
    obtain ⟨ha, rfl⟩ := ofView_eq_ok.mp hm
    exact ⟨a, ha, hf⟩
  · rintro ⟨a, ha, hf⟩
    exact ⟨a, db, ofView_eq_ok.mpr ⟨ha, rfl⟩, hf⟩

theorem lift_bind_ok (h : m db = .ok a) :
    ((liftM m : Txn ε α) >>= f) db = f a db := bind_of_ok (ofView_eq_ok.mpr ⟨h, rfl⟩)

theorem lift_bind_error {e : ε} (h : m db = .error e) :
    ((liftM m : Txn ε α) >>= f) db = .error e := by
  have hlift : (liftM m : Txn ε α) db = .error e := by
    show ofView m db = _
    rw [ofView, h]
  rw [bind_apply, hlift]

def get (k : Bytes) : Txn ε (Option Entry) := ofView (View.get k)

def scan (pre : Bytes) : Txn ε (List (Bytes × Entry)) := ofView (View.scan pre)

def setEntry (k : Bytes) (e : Entry) : Txn ε Unit := fun db => .ok ((), db.insert k e)

/-- Without an expiry. -/
def set (k v : Bytes) : Txn ε Unit := setEntry k ⟨v, 0⟩

def delete (k : Bytes) : Txn ε Unit := fun db => .ok ((), db.erase k)

def deleteByPrefix (pre : Bytes) : Txn ε Unit := fun db =>
  .ok ((), db.filter fun k _ => !pre.isPrefixOf k)

theorem pure_eq_ok {b : α} : (pure a : Txn ε α) db = .ok (b, db') ↔ a = b ∧ db = db' := by
  show Except.ok (a, db) = Except.ok (b, db') ↔ _
  simp

theorem set_bind (k v : Bytes) (f : Unit → Txn ε β) (db : Db) :
    ((set k v : Txn ε Unit) >>= f) db = f () (db.insert k ⟨v, 0⟩) := rfl

theorem delete_bind (k : Bytes) (f : Unit → Txn ε β) (db : Db) :
    ((delete k : Txn ε Unit) >>= f) db = f () (db.erase k) := rfl

theorem get_bind (k : Bytes) (f : Option Entry → Txn ε β) (db : Db) :
    ((get k : Txn ε (Option Entry)) >>= f) db = f db[k]? db := rfl

theorem get_bind_eq_ok {k : Bytes} {f : Option Entry → Txn ε β} {r : β × Db} :
    ((get k : Txn ε (Option Entry)) >>= f) db = .ok r ↔
      (db[k]? = none ∧ f none db = .ok r) ∨ ∃ e, db[k]? = some e ∧ f (some e) db = .ok r := by
  rw [get_bind]
  cases db[k]? <;> simp

/-- Entries written one after the other, under names that tell them apart. -/
theorem forM_setEntry {f : α → Bytes} {g : α → Entry} (db : Db)
    (hf : ∀ a ∈ l, ∀ b ∈ l, f a = f b → a = b) :
    ∃ db', (l.forM fun a => setEntry (f a) (g a) : Txn ε PUnit) db = .ok ((), db') ∧
      (∀ a ∈ l, db'[f a]? = some (g a)) ∧ ∀ p, (∀ a ∈ l, f a ≠ p) → db'[p]? = db[p]? := by
  induction l generalizing db with
  | nil => exact ⟨db, rfl, fun a ha => (List.not_mem_nil ha).elim, fun p _ => rfl⟩
  | cons a l ih =>
    obtain ⟨db', hrun, hin, hout⟩ := ih (db.insert (f a) (g a)) fun b hb b' hb' =>
      hf b (List.mem_cons_of_mem a hb) b' (List.mem_cons_of_mem a hb')
    refine ⟨db', hrun, ?_, ?_⟩
    · intro b hb
      by_cases hbl : b ∈ l
      · exact hin b hbl
      · obtain rfl := (List.mem_cons.mp hb).resolve_right hbl
        rw [hout _ fun b' hb' heq => hbl (hf b' (List.mem_cons_of_mem b hb') b hb heq ▸ hb'),
          getElem?_insert_ite, if_pos rfl]
    · intro p hp
      rw [hout p fun b hb => hp b (List.mem_cons_of_mem a hb), getElem?_insert_ite,
        if_neg (hp a List.mem_cons_self).symm]

/-- What no step of a fold changes holds after it. -/
theorem foldlM_keeps {f : β → α → Txn ε β} {I : Db → Prop} {b b' : β}
    (hkeep : ∀ a ∈ l, ∀ b db b' db', I db → f b a db = .ok (b', db') → I db') (hI : I db)
    (h : l.foldlM f b db = .ok (b', db')) : I db' := by
  induction l generalizing b db with
  | nil => cases h; exact hI
  | cons a l ih =>
    obtain ⟨b₁, db₁, hstep, hrest⟩ := bind_eq_ok.mp h
    refine ih (fun a' ha' => hkeep a' (List.mem_cons_of_mem a ha')) ?_ hrest
    exact hkeep a List.mem_cons_self b db b₁ db₁ hI hstep

/-- Of the elements that write one thing, a fold leaves what the last of them has written. -/
theorem foldlM_last (same : α → Bool) (I : α → Db → Prop) {f : β → α → Txn ε β}
    (hwrite : ∀ a b db b' db', same a = true → f b a db = .ok (b', db') → I a db')
    (hkeep : ∀ a₀ a b db b' db', same a = false → I a₀ db → f b a db = .ok (b', db') → I a₀ db')
    {b b' : β} (h : l.foldlM f b db = .ok (b', db')) (ha : l.reverse.find? same = some a) :
    I a db' := by
  induction l generalizing b db with
  | nil => simp at ha
  | cons x l ih =>
    obtain ⟨b₁, db₁, hstep, hrest⟩ := bind_eq_ok.mp h
    rw [List.reverse_cons, List.find?_append] at ha
    cases hl : l.reverse.find? same with
    | some y =>
      rw [hl] at ha
      cases ha
      exact ih hrest hl
    | none =>
      -- nothing after `x` writes it again
      have hnone : ∀ y ∈ l, same y = false := by simpa using hl
      rw [hl] at ha
      obtain ⟨hsame, rfl⟩ : same x = true ∧ x = a := by simpa using ha
      refine foldlM_keeps (fun y hy b db b' db' => hkeep x y b db b' db' (hnone y hy)) ?_ hrest
      exact hwrite x b db b₁ db₁ hsame hstep

theorem forM_eq_foldlM (f : α → Txn ε PUnit) (l : List α) :
    l.forM f = l.foldlM (fun _ a => f a) ⟨⟩ := by
  induction l with
  | nil => rfl
  | cons a l ih =>
    show (f a >>= fun _ => l.forM f) = _
    rw [List.foldlM_cons, ih]

end Txn

/-- Transactions one after the other; what one has written stays when a later one fails. -/
def Run (ε α : Type) : Type := Db → Except ε α × Db

namespace Run

instance : Monad (Run ε) where
  pure a := fun db => (.ok a, db)
  bind m f := fun db =>
    match m db with
    | (.ok a, db') => f a db'
    | (.error e, db') => (.error e, db')

instance : MonadExceptOf ε (Run ε) where
  throw e := fun db => (.error e, db)
  tryCatch m h := fun db =>
    match m db with
    | (.ok a, db') => (.ok a, db')
    | (.error e, db') => h e db'

variable {m : Run ε α} {f : α → Run ε β}

theorem bind_eq_ok {db db' : Db} {b : β} :
    (m >>= f) db = (.ok b, db') ↔ ∃ a db₁, m db = (.ok a, db₁) ∧ f a db₁ = (.ok b, db') := by
  show (match m db with | (.ok a, db') => f a db' | (.error e, db') => (.error e, db')) = _ ↔ _
  rcases m db with ⟨_ | a, db₁⟩ <;> simp

theorem bind_of_ok {db db' : Db} {a : α} (h : m db = (.ok a, db')) : (m >>= f) db = f a db' := by
  show (match m db with | (.ok a, db') => f a db' | (.error e, db') => (.error e, db')) = _
  rw [h]

/-- What holds after a sequence, from what its first part leaves. -/
theorem bind_snd {I : Db → Prop} {db : Db} (herror : ∀ e, (m db).1 = .error e → I (m db).2)
    (hok : ∀ a, (m db).1 = .ok a → I (f a (m db).2).2) : I ((m >>= f) db).2 := by
  show I (match m db with | (.ok a, db') => f a db' | (.error e, db') => (.error e, db')).2
  cases hm : m db with
  | mk r db' =>
    rw [hm] at herror hok
    cases r with
    | ok a => exact hok a rfl
    | error e => exact herror e rfl

/-- A transaction sees the entries that are live, and those that are not never come back. -/
def update (now : Nat) (m : Txn ε α) : Run ε α := fun db =>
  match m (visible now db) with
  | .ok (a, db') => (.ok a, db')
  | .error e => (.error e, db)

theorem update_eq_ok {now : Nat} {m : Txn ε α} {db db' : Db} {a : α} :
    update now m db = (.ok a, db') ↔ m (visible now db) = .ok (a, db') := by
  rw [update]
  rcases m (visible now db) with _ | ⟨a, db₁⟩ <;> simp

theorem update_of_error {now : Nat} {m : Txn ε α} {db : Db} {e : ε}
    (h : m (visible now db) = .error e) : update now m db = (.error e, db) := by
  rw [update, h]

def view (now : Nat) (m : View ε α) : Run ε α := fun db => (m (visible now db), db)

end Run

/-! ## What a view reads -/

/-- The view depends on the keys in `R` only. -/
def Reads (R : Bytes → Prop) (m : View ε α) : Prop :=
  ∀ db db' : Db, (∀ k, R k → db[k]? = db'[k]?) → m db = m db'

section Reads

variable {R R' : Bytes → Prop}

theorem reads_pure {a : α} : Reads R (pure a : View ε α) := fun _ _ _ => rfl

theorem reads_throw (e : ε) : Reads R (throw e : View ε α) := fun _ _ _ => rfl

theorem reads_get {k : Bytes} (h : R k) : Reads R (View.get k : View ε _) := by
  intro db db' heq
  simp only [View.get, heq k h]

theorem reads_scan {pre : Bytes} (h : ∀ k, pre <+: k → R k) :
    Reads R (View.scan pre : View ε _) := by
  intro db db' heq
  simp only [View.scan, scan_congr fun k hk => heq k (h k hk)]

theorem reads_bind {m : View ε α} {f : α → View ε β} (hm : Reads R m) (hf : ∀ a, Reads R (f a)) :
    Reads R (m >>= f) := by
  intro db db' heq
  rw [View.bind_apply, View.bind_apply, hm db db' heq]
  cases m db' with
  | ok a => exact hf a db db' heq
  | error e => rfl

theorem reads_ite {c : Prop} [Decidable c] {m m' : View ε α} (hm : Reads R m) (hm' : Reads R m') :
    Reads R (if c then m else m') := by
  split
  · exact hm
  · exact hm'

theorem reads_foldlM {f : β → α → View ε β} (hf : ∀ b a, Reads R (f b a)) (l : List α) (b : β) :
    Reads R (l.foldlM f b) := by
  induction l generalizing b with
  | nil => exact reads_pure
  | cons a l ih =>
    exact reads_bind (hf b a) ih

end Reads

/-! ## What a transaction writes -/

/-- Every key that changes ends up with an entry, or a hole, that `W` allows. -/
def Changes (W : Bytes → Option Entry → Prop) (db db' : Db) : Prop :=
  ∀ k, db'[k]? = db[k]? ∨ W k db'[k]?

def Writes (W : Bytes → Option Entry → Prop) (m : Txn ε α) : Prop :=
  ∀ db a db', m db = .ok (a, db') → Changes W db db'

section Writes

variable {W W' : Bytes → Option Entry → Prop}

theorem Changes.refl (db : Db) : Changes W db db := fun _ => .inl rfl

theorem Changes.trans {db db' db'' : Db} (h : Changes W db db') (h' : Changes W db' db'') :
    Changes W db db'' := by
  intro k
  rcases h' k with heq | hw
  · rw [heq]
    exact h k
  · exact .inr hw

theorem Changes.mono {db db' : Db} (h : Changes W db db') (hW : ∀ k e, W k e → W' k e) :
    Changes W' db db' := fun k => (h k).imp id (hW k _)

variable {k : Bytes} {m : Txn ε α}

theorem Writes.mono (h : Writes W m) (hW : ∀ k e, W k e → W' k e) : Writes W' m :=
  fun db a db' hm => (h db a db' hm).mono hW

theorem writes_pure {a : α} : Writes W (pure a : Txn ε α) := by
  rintro db b db' ⟨⟩
  exact .refl db

theorem writes_throw {e : ε} : Writes W (throw e : Txn ε α) := by
  rintro db b db' ⟨⟩

theorem writes_ofView (m : View ε α) : Writes W (Txn.ofView m) := by
  intro db a db' h
  rw [(Txn.ofView_eq_ok.mp h).2]
  exact .refl db

theorem writes_get (k : Bytes) : Writes W (Txn.get k : Txn ε _) := writes_ofView _

theorem writes_setEntry {e : Entry} (h : W k (some e)) :
    Writes W (Txn.setEntry k e : Txn ε Unit) := by
  rintro db a db' ⟨⟩ k'
  rw [getElem?_insert_ite]
  split
  · next hk => exact .inr (hk ▸ h)
  · exact .inl rfl

theorem writes_set {v : Bytes} (h : W k (some ⟨v, 0⟩)) : Writes W (Txn.set k v : Txn ε Unit) :=
  writes_setEntry h

theorem writes_delete (h : W k none) : Writes W (Txn.delete k : Txn ε Unit) := by
  rintro db a db' ⟨⟩ k'
  rw [getElem?_erase_ite]
  split
  · next hk => exact .inr (hk ▸ h)
  · exact .inl rfl

theorem getElem?_erasePrefix (pre : Bytes) (db : Db) (k : Bytes) :
    (db.filter fun k _ => !pre.isPrefixOf k)[k]? = if pre <+: k then none else db[k]? := by
  rw [getElem?_filter']
  by_cases hk : pre <+: k
  · rw [if_pos hk, List.isPrefixOf_iff_prefix.mpr hk]
    cases db[k]? <;> rfl
  · rw [if_neg hk, isPrefixOf_eq_false hk]
    cases db[k]? <;> rfl

theorem writes_deleteByPrefix {pre : Bytes} (h : ∀ k, pre <+: k → W k none) :
    Writes W (Txn.deleteByPrefix pre : Txn ε Unit) := by
  rintro db a db' ⟨⟩ k
  rw [getElem?_erasePrefix]
  split
  · next hk => exact .inr (h k hk)
  · exact .inl rfl

theorem writes_bind {f : α → Txn ε β} (hm : Writes W m) (hf : ∀ a, Writes W (f a)) :
    Writes W (m >>= f) := by
  intro db b db' h
  obtain ⟨a, db₁, hres, h⟩ := Txn.bind_eq_ok.mp h
  exact (hm db a db₁ hres).trans (hf a db₁ b db' h)

/-- What is read in front writes nothing. -/
theorem writes_read {v : View ε α} {f : α → Txn ε β} (hf : ∀ a, Writes W (f a)) :
    Writes W (Txn.ofView v >>= f) := writes_bind (writes_ofView v) hf

theorem writes_map (hm : Writes W m) (f : α → β) :
    Writes W (m >>= fun a => pure (f a)) := writes_bind hm fun _ => writes_pure

/-- A transaction that goes on with the entry of a key, or without one. -/
theorem writes_get_bind {f : Option Entry → Txn ε β} (hnone : Writes W (f none))
    (hsome : ∀ e, Writes W (f (some e))) : Writes W (Txn.get k >>= f) :=
  writes_bind (writes_get k) fun e => by
    cases e with
    | none => exact hnone
    | some e => exact hsome e

/-- What a scan finds has the prefix. -/
theorem writes_scan_bind {pre : Bytes} {f : List (Bytes × Entry) → Txn ε β}
    (hf : ∀ es, (∀ e ∈ es, pre <+: e.1) → Writes W (f es)) : Writes W (Txn.scan pre >>= f) :=
  fun db b db' h => hf _ (fun _ he => (mem_scan.mp he).2) db b db' h

theorem writes_ite {c : Prop} [Decidable c] {m' : Txn ε α} (hm : Writes W m) (hm' : Writes W m') :
    Writes W (if c then m else m') := by
  split
  · exact hm
  · exact hm'

theorem writes_foldlM {f : β → α → Txn ε β} (hf : ∀ b a, Writes W (f b a)) (l : List α) (b : β) :
    Writes W (l.foldlM f b) := by
  induction l generalizing b with
  | nil => exact writes_pure
  | cons a l ih =>
    exact writes_bind (hf b a) ih

theorem writes_forM {f : α → Txn ε PUnit} {l : List α} (hf : ∀ a ∈ l, Writes W (f a)) :
    Writes W (l.forM f) := by
  induction l with
  | nil => exact writes_pure
  | cons a l ih =>
    exact writes_bind (hf a List.mem_cons_self)
      fun _ => ih fun a' ha' => hf a' (List.mem_cons_of_mem a ha')

end Writes

/-! ## What a run commits -/

/-- Every key that looks different afterwards has an entry, or a hole, that `W` allows. -/
def Commits (now : Nat) (W : Bytes → Option Entry → Prop) (m : Run ε α) : Prop :=
  ∀ db, Changes W (visible now db) (visible now (m db).2)

section Commits

variable {now : Nat} {W W' : Bytes → Option Entry → Prop}

theorem visible_visible (now : Nat) (db : Db) : visible now (visible now db) = visible now db := by
  apply ext_getElem?
  intro k
  rw [getElem?_visible, getElem?_visible, Option.filter_filter]
  simp only [Bool.and_self]

theorem visible_empty (now : Nat) : visible now ∅ = ∅ := by
  apply ext_getElem?
  intro k
  rfl

variable {m : Run ε α}

theorem Commits.mono (h : Commits now W m) (hW : ∀ k e, W k e → W' k e) :
    Commits now W' m := fun db => (h db).mono hW

theorem commits_pure {a : α} : Commits now W (pure a : Run ε α) := fun _ => .refl _

theorem commits_throw (e : ε) : Commits now W (throw e : Run ε α) := fun _ => .refl _

theorem commits_view (m : View ε α) : Commits now W (Run.view now m) := fun _ => .refl _

/-- An entry may be written that is hidden at once, so `W` has to allow the hole. -/
theorem commits_update {m : Txn ε α} (h : Writes W m)
    (hW : ∀ k e, W k (some e) → e.live now = false → W k none) :
    Commits now W (Run.update now m) := by
  intro db k
  unfold Run.update
  split
  · next a db' hm =>
    show (visible now db')[k]? = (visible now db)[k]? ∨ W k (visible now db')[k]?
    rcases h _ _ _ hm k with heq | hw
    · refine .inl ?_
      rw [getElem?_visible, heq, ← getElem?_visible, visible_visible]
    · refine .inr ?_
      rw [getElem?_visible]
      cases hget : db'[k]? with
      | none => rwa [hget] at hw
      | some e =>
        rw [hget] at hw
        cases hlive : e.live now with
        | true => rwa [Option.filter_some, if_pos hlive]
        | false =>
          rw [Option.filter_some, if_neg (by rw [hlive]; exact Bool.false_ne_true)]
          exact hW k e hw hlive
  · exact .inl rfl

theorem commits_bind {f : α → Run ε β} (hm : Commits now W m) (hf : ∀ a, Commits now W (f a)) :
    Commits now W (m >>= f) := by
  intro db
  exact Run.bind_snd (I := fun db' => Changes W (visible now db) (visible now db'))
    (fun _ _ => hm db) fun a _ => (hm db).trans (hf a _)

theorem commits_tryCatch {f : ε → Run ε α} (hm : Commits now W m) (hf : ∀ e, Commits now W (f e)) :
    Commits now W (tryCatch m f) := by
  intro db
  have hfirst := hm db
  show Changes W (visible now db) (visible now (match m db with
    | (.ok a, db') => (Except.ok a, db')
    | (.error e, db') => f e db').2)
  cases hres : m db with
  | mk r db' =>
    rw [hres] at hfirst
    cases r with
    | ok a => exact hfirst
    | error e => exact hfirst.trans (hf e db')

theorem commits_ite {c : Prop} [Decidable c] {m' : Run ε α} (hm : Commits now W m)
    (hm' : Commits now W m') : Commits now W (if c then m else m') := by
  split
  · exact hm
  · exact hm'

end Commits

/-- The run keeps an invariant of the store. -/
def Keeps (I : Db → Prop) (m : Run ε α) : Prop := ∀ db, I db → I (m db).2

section Keeps

variable {now : Nat} {I : Db → Prop}

theorem keeps_pure {a : α} : Keeps I (pure a : Run ε α) := fun _ h => h

theorem keeps_view (m : View ε α) : Keeps I (Run.view now m) := fun _ h => h

theorem keeps_bind {m : Run ε α} {f : α → Run ε β} (hm : Keeps I m) (hf : ∀ a, Keeps I (f a)) :
    Keeps I (m >>= f) := by
  intro db h
  exact Run.bind_snd (fun _ _ => hm db h) fun a _ => hf a _ (hm db h)

theorem keeps_ite {c : Prop} [Decidable c] {m m' : Run ε α} (hm : Keeps I m) (hm' : Keeps I m') :
    Keeps I (if c then m else m') := by
  split
  · exact hm
  · exact hm'

/-- For an invariant of what can be seen. -/
theorem keeps_update {m : Txn ε α} (hm : ∀ db a db', I db → m db = .ok (a, db') → I db')
    (hvis : ∀ db, I db → I (visible now db)) :
    Keeps (fun db => I (visible now db)) (Run.update now m) := by
  intro db h
  unfold Run.update
  split
  · next heq => exact hvis _ (hm _ _ _ h heq)
  · exact h

end Keeps

section Commits

variable {now : Nat} {W : Bytes → Option Entry → Prop}

/-- A view does not notice a run that writes nothing it reads. -/
theorem Reads.eq_of_commits {R : Bytes → Prop} {v : View ε β} {m : Run ε α} (hv : Reads R v)
    (hm : Commits now W m) (hW : ∀ k e, R k → ¬ W k e) (db : Db) :
    v (visible now (m db).2) = v (visible now db) := by
  apply hv
  intro k hk
  exact (hm db k).resolve_right (hW k _ hk)

end Commits

end KeyValue
