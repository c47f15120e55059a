import BoltDB.Lib.Transition
import BoltDB.Store.Keyspace

/-!
# Channels, patterns and their subscribers

`pubsub.go`: a manager keeps the subscribers of every channel, pattern and shard channel, and every
subscriber keeps what it is subscribed to. Calls that change either hold the lock of the manager; publishers
share it, so several of them can be under way at once, and a connection takes messages out of its buffer at
any time. Of a removed subscriber the buffer is closed. Go's maps of subscribers and of names are lists
without repetitions.

* `Mirror` — the two indexes say the same, and no empty set is kept.
* `Exact` — a publication has one message for each matching subscription, and counts those it put.
* `pubsub_index_exact` — both hold in every run in which no removed subscriber subscribes again.
-/

namespace BoltDB.Store.PubSub

open Bytes Transition List Std.ExtTreeMap Option

inductive Kind
  | channel
  | pattern
  | shard
  deriving DecidableEq

structure Message where
  channel : Bytes
  pattern : Bytes
  data : Bytes
  shard : Bool
  deriving DecidableEq

structure Subscriber where
  /-- `Channels`, `Patterns` and `ShardChannels`. -/
  own : Kind → List Bytes
  /-- `MessageCh`. -/
  buffer : List Message
  closed : Bool

def newSubscriber : Subscriber := ⟨fun _ => [], [], false⟩

/-- A subscriber and something it is subscribed to. -/
structure Subscription (σ : Type) where
  sub : σ
  kind : Kind
  name : Bytes
  deriving DecidableEq

/-- The room in `MessageCh`. -/
def capacity : Nat := 100

/-- A call of `Publish` or `SPublish` that is under way. -/
structure Publication (σ : Type) where
  id : Nat
  shard : Bool
  channel : Bytes
  data : Bytes
  /-- The sends that are left. -/
  todo : List (Subscription σ)
  /-- The sends behind it, and whether they put their message into the buffer. -/
  done : List (Subscription σ × Bool)
  count : Nat

/-- The message that a subscription gets. -/
def Publication.message {σ : Type} (p : Publication σ) (x : Subscription σ) : Message :=
  match x.kind with
  | .channel => ⟨p.channel, [], p.data, false⟩
  | .pattern => ⟨p.channel, x.name, p.data, false⟩
  | .shard => ⟨p.channel, [], p.data, true⟩

/-- The send to `x` is behind the publication; it put its message, or the buffer was passed over. -/
def Publication.advance {σ : Type} (p : Publication σ) (x : Subscription σ) (todo : List (Subscription σ))
    (put : Bool) : Publication σ :=
  { p with todo := todo, done := p.done ++ [(x, put)], count := if put then p.count + 1 else p.count }

structure Manager (σ : Type) where
  /-- `channels`, `patterns` and `shardChannels`. -/
  index : Kind → Std.ExtTreeMap Bytes (List σ) compare
  sub : σ → Subscriber
  publishing : List (Publication σ)
  /-- The number of the next publication, what was ever put into a buffer, by which publication, and what
  was taken out. -/
  next : Nat
  sent : List (Nat × Subscription σ × Message)
  taken : σ → List Message

variable {σ : Type} [DecidableEq σ]

/-- `NewPubSubManager`. -/
def newPubSubManager : Manager σ := ⟨fun _ => ∅, fun _ => newSubscriber, [], 0, [], fun _ => []⟩

namespace Manager

/-- The subscribers of a name. -/
def subsOf (m : Manager σ) (kind : Kind) (name : Bytes) : List σ := ((m.index kind)[name]?).getD []

def setOwn (m : Manager σ) (s : σ) (kind : Kind) (names : List Bytes) : Manager σ :=
  let sub := m.sub s
  { m with sub := Function.update m.sub s { sub with own := Function.update sub.own kind names } }

def setIndex (m : Manager σ) (kind : Kind) (index : Std.ExtTreeMap Bytes (List σ) compare) : Manager σ :=
  { m with index := Function.update m.index kind index }

/-- One name of `Subscribe`, `PSubscribe` or `SSubscribe`. -/
def subscribeOne (kind : Kind) (s : σ) (m : Manager σ) (name : Bytes) : Manager σ :=
  let m := m.setOwn s kind (((m.sub s).own kind).insert name)
  m.setIndex kind ((m.index kind).insert name ((m.subsOf kind name).insert s))

/-- `Subscribe`, `PSubscribe` and `SSubscribe`, which return the names. -/
def subscribe (m : Manager σ) (kind : Kind) (s : σ) (names : List Bytes) : Manager σ × List Bytes :=
  (names.foldl (subscribeOne kind s) m, names)

/-- The subscriber leaves the set of a name; an empty set is deleted. -/
def dropIndex (m : Manager σ) (kind : Kind) (s : σ) (name : Bytes) : Manager σ :=
  match (m.index kind)[name]? with
  | none => m
  | some subs =>
    if subs.erase s = [] then m.setIndex kind ((m.index kind).erase name)
    else m.setIndex kind ((m.index kind).insert name (subs.erase s))

/-- One name of `unsubscribeLocked` or `punsubscribeLocked`. -/
def unsubscribeOne (kind : Kind) (s : σ) (r : Manager σ × List Bytes) (name : Bytes) :
    Manager σ × List Bytes :=
  let (m, unsubscribed) := r
  let own := (m.sub s).own kind
  if name ∈ own then ((m.setOwn s kind (own.erase name)).dropIndex kind s name, unsubscribed ++ [name])
  else (m.dropIndex kind s name, unsubscribed)

/-- One name of `sUnsubscribeLocked`, which passes over a name that the subscriber does not have. -/
def sUnsubscribeOne (s : σ) (r : Manager σ × List Bytes) (name : Bytes) : Manager σ × List Bytes :=
  let (m, unsubscribed) := r
  let own := (m.sub s).own .shard
  if name ∈ own then
    ((m.setOwn s .shard (own.erase name)).dropIndex .shard s name, unsubscribed ++ [name])
  else r

/-- The names of a call without arguments are all the subscriber has. -/
def namesOr (m : Manager σ) (kind : Kind) (s : σ) (names : List Bytes) : List Bytes :=
  if names = [] then (m.sub s).own kind else names

/-- `unsubscribeLocked`, `punsubscribeLocked` and `sUnsubscribeLocked`. -/
def unsubscribe (m : Manager σ) (kind : Kind) (s : σ) (names : List Bytes) : Manager σ × List Bytes :=
  match kind with
  | .shard => (m.namesOr .shard s names).foldl (sUnsubscribeOne s) (m, [])
  | kind => (m.namesOr kind s names).foldl (unsubscribeOne kind s) (m, [])

/-- `RemoveSubscriber`. -/
def removeSubscriber (m : Manager σ) (s : σ) : Manager σ :=
  if (m.sub s).closed then m
  else
    let sub := m.sub s
    let m := { m with sub := Function.update m.sub s { sub with closed := true } }
    let m := (m.unsubscribe .channel s (sub.own .channel)).1
    let m := (m.unsubscribe .pattern s (sub.own .pattern)).1
    (m.unsubscribe .shard s (sub.own .shard)).1

/-! ## Publishing -/

/-- The sends of `Publish`: to the subscribers of the channel, and to those of each matching pattern.
Go goes through the patterns in any order; here it is that of their names. -/
def sends (m : Manager σ) (channel : Bytes) : List (Subscription σ) :=
  (m.subsOf .channel channel).map (⟨·, .channel, channel⟩) ++
    (m.index .pattern).toList.flatMap fun e =>
      if matchPattern channel e.1 then e.2.map (⟨·, .pattern, e.1⟩) else []

/-- The sends of `SPublish`. -/
def sSends (m : Manager σ) (channel : Bytes) : List (Subscription σ) :=
  (m.subsOf .shard channel).map (⟨·, .shard, channel⟩)

/-- The publisher gets the shared lock. -/
def begin (m : Manager σ) (shard : Bool) (channel data : Bytes) : Manager σ :=
  let todo := if shard then m.sSends channel else m.sends channel
  { m with
    publishing := m.publishing ++ [⟨m.next, shard, channel, data, todo, [], 0⟩]
    next := m.next + 1 }

/-- A message goes into the buffer of a subscriber. -/
def put (m : Manager σ) (id : Nat) (x : Subscription σ) (msg : Message) : Manager σ :=
  let sub := m.sub x.sub
  { m with
    sub := Function.update m.sub x.sub { sub with buffer := sub.buffer ++ [msg] }
    sent := m.sent ++ [(id, x, msg)] }

def HasRoom (m : Manager σ) (s : σ) : Prop := ¬ (m.sub s).closed ∧ (m.sub s).buffer.length < capacity

instance (m : Manager σ) (s : σ) : Decidable (m.HasRoom s) := inferInstanceAs (Decidable (_ ∧ _))

/-- The next send of a publication: a closed or full buffer is passed over. -/
def send (m : Manager σ) (k : Nat) : Option (Manager σ) :=
  match m.publishing[k]? with
  | none => none
  | some p =>
    match p.todo with
    | [] => none
    | x :: todo =>
      if m.HasRoom x.sub then
        some { m.put p.id x (p.message x) with publishing := m.publishing.set k (p.advance x todo true) }
      else some { m with publishing := m.publishing.set k (p.advance x todo false) }

/-- The publication returns its count. -/
def finish (m : Manager σ) (k : Nat) : Option (Manager σ × Nat) :=
  match m.publishing[k]? with
  | none => none
  | some p =>
    if p.todo = [] then some ({ m with publishing := m.publishing.eraseIdx k }, p.count) else none

/-- A connection takes a message out of its buffer. -/
def receive (m : Manager σ) (s : σ) : Option (Manager σ) :=
  let sub := m.sub s
  match sub.buffer with
  | [] => none
  | msg :: buffer => some { m with
      sub := Function.update m.sub s { sub with buffer := buffer }
      taken := Function.update m.taken s (m.taken s ++ [msg]) }

end Manager

inductive Act (σ : Type)
  | subscribe (kind : Kind) (s : σ) (names : List Bytes)
  | unsubscribe (kind : Kind) (s : σ) (names : List Bytes)
  | remove (s : σ)
  | begin (shard : Bool) (channel data : Bytes)
  | send (k : Nat)
  | finish (k : Nat)
  | receive (s : σ)

/-- The calls that need the lock alone wait until no publication is under way. -/
def Manager.step (m : Manager σ) : Act σ → Option (Manager σ)
  | .subscribe kind s names => if m.publishing = [] then some (m.subscribe kind s names).1 else none
  | .unsubscribe kind s names => if m.publishing = [] then some (m.unsubscribe kind s names).1 else none
  | .remove s => if m.publishing = [] then some (m.removeSubscriber s) else none
  | .begin shard channel data => some (m.begin shard channel data)
  | .send k => m.send k
  | .finish k => (m.finish k).map (·.1)
  | .receive s => m.receive s

namespace Manager

/-! ## The two indexes -/

/-- **The index.** A subscriber is in the set of a name if and only if the name is in its own set; sets are
without repetitions, and none is empty. -/
structure Mirror (m : Manager σ) : Prop where
  both : ∀ kind name s, s ∈ m.subsOf kind name ↔ name ∈ (m.sub s).own kind
  tidy : ∀ (kind : Kind) (name : Bytes) (subs : List σ), (m.index kind)[name]? = some subs →
    subs ≠ [] ∧ subs.Nodup
  own : ∀ s kind, ((m.sub s).own kind).Nodup

/-- All but the sets stays as it is. -/
structure Same (m m' : Manager σ) : Prop where
  publishing : m'.publishing = m.publishing
  next : m'.next = m.next
  sent : m'.sent = m.sent
  taken : m'.taken = m.taken
  buffer : ∀ s, (m'.sub s).buffer = (m.sub s).buffer
  closed : ∀ s, (m'.sub s).closed = (m.sub s).closed

section

omit [DecidableEq σ]

theorem Same.refl (m : Manager σ) : Same m m := ⟨rfl, rfl, rfl, rfl, fun _ => rfl, fun _ => rfl⟩

theorem Same.trans {m m' m'' : Manager σ} (h : Same m m') (h' : Same m' m'') : Same m m'' where
  publishing := h'.publishing.trans h.publishing
  next := h'.next.trans h.next
  sent := h'.sent.trans h.sent
  taken := h'.taken.trans h.taken
  buffer s := (h'.buffer s).trans (h.buffer s)
  closed s := (h'.closed s).trans (h.closed s)

theorem same_foldl {f : Manager σ → Bytes → Manager σ} (hf : ∀ m name, Same m (f m name)) (m : Manager σ)
    (names : List Bytes) : Same m (names.foldl f m) := by
  induction names generalizing m with
  | nil => exact .refl m
  | cons name names ih => exact (hf m name).trans (ih _)

theorem index_setIndex (m : Manager σ) (kind k : Kind) (index : Std.ExtTreeMap Bytes (List σ) compare) :
    (m.setIndex kind index).index k = if k = kind then index else m.index k :=
  Function.update_apply m.index kind index k

theorem same_setIndex (m : Manager σ) (kind : Kind) (index : Std.ExtTreeMap Bytes (List σ) compare) :
    Same m (m.setIndex kind index) := ⟨rfl, rfl, rfl, rfl, fun _ => rfl, fun _ => rfl⟩

variable {m m' : Manager σ} (h : Mirror m)

include h

theorem Mirror.congr (hindex : m'.index = m.index) (hown : ∀ s, (m'.sub s).own = (m.sub s).own) :
    Mirror m' where
  both kind name s := by
    rw [subsOf, hindex, hown]
    exact h.both kind name s
  tidy kind name subs hsubs := by
    rw [hindex] at hsubs
    exact h.tidy kind name subs hsubs
  own s kind := by
    rw [hown]
    exact h.own s kind

/-- Both indexes change at one pair of a name and a subscriber. -/
theorem Mirror.pair (kind : Kind) (s : σ) (name : Bytes) (b : Prop) [Decidable b] [DecidableEq σ]
    (hsubs : ∀ k n s', s' ∈ m'.subsOf k n ↔
      if k = kind ∧ n = name ∧ s' = s then b else s' ∈ m.subsOf k n)
    (hown : ∀ s' k n, n ∈ (m'.sub s').own k ↔
      if k = kind ∧ n = name ∧ s' = s then b else n ∈ (m.sub s').own k) :
    ∀ k n s', s' ∈ m'.subsOf k n ↔ n ∈ (m'.sub s').own k := by
  intro k n s'
  rw [hsubs, hown]
  split
  · rfl
  · exact h.both k n s'

theorem mirror_foldl {f : Manager σ → Bytes → Manager σ} (hf : ∀ m, Mirror m → ∀ name, Mirror (f m name))
    (names : List Bytes) : Mirror (names.foldl f m) := by
  induction names generalizing m with
  | nil => exact h
  | cons name names ih => exact ih (hf m h name)

theorem nodup_subsOf (kind : Kind) (name : Bytes) : (m.subsOf kind name).Nodup := by
  rw [subsOf]
  cases hsubs : (m.index kind)[name]? with
  | none => exact nodup_nil
  | some subs => exact (h.tidy kind name subs hsubs).2

end

section

variable (m : Manager σ) (kind : Kind) (s : σ) (name : Bytes)

/-- A part of a subscriber that the update leaves as it is. -/
theorem update_sub {α : Type} (g : Subscriber → α) {t : Subscriber} (hg : g t = g (m.sub s)) (s' : σ) :
    g (Function.update m.sub s t s') = g (m.sub s') := by
  rw [Function.update_apply]
  split
  · next hs => rw [hs, hg]
  · rfl

theorem own_setOwn (s' : σ) (k : Kind) (names : List Bytes) : ((m.setOwn s kind names).sub s').own k =
    if s' = s ∧ k = kind then names else (m.sub s').own k := by
  by_cases hs : s' = s
  · subst hs
    simp [setOwn, Function.update_apply]
  · simp [setOwn, hs]

theorem same_setOwn (names : List Bytes) : Same m (m.setOwn s kind names) :=
  ⟨rfl, rfl, rfl, rfl, update_sub m s (·.buffer) rfl, update_sub m s (·.closed) rfl⟩

/-! ## Subscribing -/

theorem own_subscribeOne (s' : σ) (k : Kind) : ((subscribeOne kind s m name).sub s').own k =
    if s' = s ∧ k = kind then ((m.sub s).own kind).insert name else (m.sub s').own k :=
  own_setOwn m kind s s' k _

theorem same_subscribeOne : Same m (subscribeOne kind s m name) :=
  (same_setOwn m kind s _).trans (same_setIndex _ kind _)

theorem index_subscribeOne (k : Kind) (n : Bytes) : ((subscribeOne kind s m name).index k)[n]? =
    if k = kind ∧ n = name then some ((m.subsOf kind name).insert s) else (m.index k)[n]? := by
  have hindex : (subscribeOne kind s m name).index k =
      if k = kind then (m.index kind).insert name ((m.subsOf kind name).insert s) else m.index k :=
    index_setIndex _ kind k _
  rw [hindex]
  by_cases hk : k = kind
  · subst hk
    rw [if_pos rfl, KeyValue.getElem?_insert_ite]
    simp
  · simp [hk]

variable {m} in
theorem mirror_subscribeOne (h : Mirror m) : Mirror (subscribeOne kind s m name) where
  both := by
    apply h.pair kind s name True
    · intro k n s'
      rw [subsOf, index_subscribeOne]
      by_cases hk : k = kind ∧ n = name
      · obtain ⟨rfl, rfl⟩ := hk
        by_cases hs : s' = s <;> simp [hs]
      · rw [if_neg hk, if_neg fun hall => hk ⟨hall.1, hall.2.1⟩]
        rfl
    · intro s' k n
      rw [own_subscribeOne]
      by_cases hs : s' = s ∧ k = kind
      · obtain ⟨rfl, rfl⟩ := hs
        by_cases hn : n = name <;> simp [hn]
      · rw [if_neg hs, if_neg fun hall => hs ⟨hall.2.2, hall.1⟩]
  tidy := by
    intro k n subs hsubs
    rw [index_subscribeOne] at hsubs
    split at hsubs
    · rw [← some.inj hsubs]
      refine ⟨?_, (nodup_subsOf h kind name).insert⟩
      exact ne_nil_of_mem List.mem_insert_self
    · exact h.tidy k n subs hsubs
  own := by
    intro s' k
    rw [own_subscribeOne]
    split
    · exact (h.own s kind).insert
    · exact h.own s' k

/-! ## Unsubscribing -/

/-- A name is taken out of both indexes. -/
def drop (kind : Kind) (s : σ) (m : Manager σ) (name : Bytes) : Manager σ :=
  (m.setOwn s kind (((m.sub s).own kind).erase name)).dropIndex kind s name

theorem setOwn_self : m.setOwn s kind ((m.sub s).own kind) = m := by
  simp [setOwn]

theorem index_dropIndex (k : Kind) (n : Bytes) : ((m.dropIndex kind s name).index k)[n]? =
    if k = kind ∧ n = name ∧ name ∈ m.index kind then
      (if (m.subsOf kind name).erase s = [] then none else some ((m.subsOf kind name).erase s))
    else (m.index k)[n]? := by
  by_cases hk : k = kind
  · subst hk
    have hmem := (m.index k).mem_iff_isSome_getElem? (a := name)
    rw [dropIndex, subsOf]
    cases hsubs : (m.index k)[name]? with
    | none => simp [hmem, hsubs]
    | some subs =>
      dsimp only [getD_some]
      split
      · rw [index_setIndex, if_pos rfl, KeyValue.getElem?_erase_ite]
        simp [hmem, hsubs]
      · rw [index_setIndex, if_pos rfl, KeyValue.getElem?_insert_ite]
        simp [hmem, hsubs]
  · rw [if_neg fun hall => hk hall.1, dropIndex]
    split
    · rfl
    · split <;> rw [index_setIndex, if_neg hk]

theorem sub_dropIndex : (m.dropIndex kind s name).sub = m.sub := by
  rw [dropIndex]
  split
  · rfl
  · split <;> rfl

theorem same_dropIndex : Same m (m.dropIndex kind s name) := by
  rw [dropIndex]
  split
  · exact .refl m
  · split <;> exact same_setIndex m kind _

theorem own_drop (s' : σ) (k : Kind) : ((drop kind s m name).sub s').own k =
    if s' = s ∧ k = kind then ((m.sub s).own kind).erase name else (m.sub s').own k := by
  rw [drop, sub_dropIndex, own_setOwn]

theorem same_drop : Same m (drop kind s m name) :=
  (same_setOwn m kind s _).trans (same_dropIndex _ kind s name)

theorem index_drop (k : Kind) (n : Bytes) : ((drop kind s m name).index k)[n]? =
    if k = kind ∧ n = name ∧ name ∈ m.index kind then
      (if (m.subsOf kind name).erase s = [] then none else some ((m.subsOf kind name).erase s))
    else (m.index k)[n]? := index_dropIndex _ kind s name k n

theorem subsOf_drop (k : Kind) (n : Bytes) : (drop kind s m name).subsOf k n =
    if k = kind ∧ n = name then (m.subsOf kind name).erase s else m.subsOf k n := by
  rw [subsOf, index_drop]
  by_cases hk : k = kind ∧ n = name
  · obtain ⟨rfl, rfl⟩ := hk
    by_cases hmem : n ∈ m.index k
    · by_cases hempty : (m.subsOf k n).erase s = [] <;> simp [hmem, hempty]
    · simp [hmem, subsOf]
  · rw [if_neg fun hall => hk ⟨hall.1, hall.2.1⟩, if_neg hk]
    rfl

variable {m}

theorem mirror_drop (h : Mirror m) : Mirror (drop kind s m name) where
  both := by
    apply h.pair kind s name False
    · intro k n s'
      rw [subsOf_drop]
      by_cases hk : k = kind ∧ n = name
      · obtain ⟨rfl, rfl⟩ := hk
        rw [if_pos ⟨rfl, rfl⟩, (nodup_subsOf h k n).mem_erase_iff]
        by_cases hs : s' = s <;> simp [hs]
      · rw [if_neg hk, if_neg fun hall => hk ⟨hall.1, hall.2.1⟩]
    · intro s' k n
      rw [own_drop]
      by_cases hs : s' = s ∧ k = kind
      · obtain ⟨rfl, rfl⟩ := hs
        rw [if_pos ⟨rfl, rfl⟩, (h.own s' k).mem_erase_iff]
        by_cases hn : n = name <;> simp [hn]
      · rw [if_neg hs, if_neg fun hall => hs ⟨hall.2.2, hall.1⟩]
  tidy := by
    intro k n subs hsubs
    rw [index_drop] at hsubs
    split at hsubs
    · split at hsubs
      · cases hsubs
      · next hne =>
        rw [← some.inj hsubs]
        exact ⟨hne, (nodup_subsOf h kind name).erase s⟩
    · exact h.tidy k n subs hsubs
  own := by
    intro s' k
    rw [own_drop]
    split
    · exact (h.own s kind).erase name
    · exact h.own s' k

theorem unsubscribeOne_fst (l : List Bytes) : (unsubscribeOne kind s (m, l) name).1 = drop kind s m name := by
  rw [unsubscribeOne]
  split
  · rfl
  · next hnot =>
    rw [drop, erase_of_not_mem hnot, setOwn_self]

/-- A name that the subscriber does not have is in neither index, so there is nothing to take out. -/
theorem sUnsubscribeOne_fst (h : Mirror m) (l : List Bytes) :
    (sUnsubscribeOne s (m, l) name).1 = drop .shard s m name := by
  rw [sUnsubscribeOne]
  split
  · rfl
  · next hnot =>
    have hout : s ∉ m.subsOf .shard name := fun hin => hnot ((h.both .shard name s).mp hin)
    rw [drop, erase_of_not_mem hnot, setOwn_self, dropIndex]
    cases hsubs : (m.index .shard)[name]? with
    | none => rfl
    | some subs =>
      have heq : m.subsOf .shard name = subs := by
        rw [subsOf, hsubs]
        rfl
      rw [heq] at hout
      dsimp only
      rw [erase_of_not_mem hout, if_neg (h.tidy .shard name subs hsubs).1]
      have hsame : (m.index .shard).insert name subs = m.index .shard := by
        apply Std.ExtTreeMap.ext_getElem?
        intro n
        rw [KeyValue.getElem?_insert_ite]
        split
        · next hn => rw [hn, hsubs]
        · rfl
      rw [hsame]
      simp [setIndex]

/-- All three forms take the names out of both indexes. -/
theorem unsubscribe_fst (h : Mirror m) (names : List Bytes) :
    (m.unsubscribe kind s names).1 = (m.namesOr kind s names).foldl (drop kind s) m := by
  have hplain : ∀ (l : List Bytes) (r : Manager σ × List Bytes),
      (l.foldl (unsubscribeOne kind s) r).1 = l.foldl (drop kind s) r.1 := by
    intro l r
    exact (foldl_hom Prod.fst fun r name => (unsubscribeOne_fst kind s name r.2).symm).symm
  have hshard : ∀ (l : List Bytes) (r : Manager σ × List Bytes), Mirror r.1 →
      (l.foldl (sUnsubscribeOne s) r).1 = l.foldl (drop .shard s) r.1 := by
    intro l
    induction l with
    | nil => exact fun _ _ => rfl
    | cons name l ih =>
      intro r hr
      have hone := sUnsubscribeOne_fst s name hr r.2
      rw [foldl_cons, foldl_cons, ← hone]
      apply ih
      rw [hone]
      exact mirror_drop .shard s name hr
  cases kind with
  | channel => exact hplain _ (m, [])
  | pattern => exact hplain _ (m, [])
  | shard => exact hshard _ (m, []) h

theorem mem_own_foldl_drop (h : Mirror m) (names : List Bytes) (s' : σ) (k : Kind) (n : Bytes) :
    n ∈ ((names.foldl (drop kind s) m).sub s').own k ↔
      n ∈ (m.sub s').own k ∧ ¬ (s' = s ∧ k = kind ∧ n ∈ names) := by
  induction names generalizing m with
  | nil => simp
  | cons name names ih =>
    rw [foldl_cons, ih (mirror_drop kind s name h), own_drop]
    by_cases hs : s' = s ∧ k = kind
    · obtain ⟨rfl, rfl⟩ := hs
      rw [if_pos ⟨rfl, rfl⟩, (h.own s' k).mem_erase_iff]
      simp only [true_and, mem_cons, not_or]
      tauto
    · rw [if_neg hs]
      have hno : ∀ P : Prop, ¬ (s' = s ∧ k = kind ∧ P) := fun P hall => hs ⟨hall.1, hall.2.1⟩
      simp [hno]

end

end Manager

/-! ## Publications -/

/-- The publication is for subscriptions to this name. -/
def Publication.Targets (p : Publication σ) (kind : Kind) (name : Bytes) : Prop :=
  if p.shard then kind = .shard ∧ name = p.channel
  else kind = .channel ∧ name = p.channel ∨ kind = .pattern ∧ matchPattern p.channel name = true

/-- **A publication** has one send, behind it or left, for each matching subscription. What it has put into
buffers is the messages of the sends that found room, and it has counted them. -/
structure Exact (m : Manager σ) (p : Publication σ) : Prop where
  nodup : (p.done.map (·.1) ++ p.todo).Nodup
  matching : ∀ x, x ∈ p.done.map (·.1) ++ p.todo ↔
    p.Targets x.kind x.name ∧ x.name ∈ (m.sub x.sub).own x.kind
  puts : m.sent.filter (·.1 = p.id) = (p.done.filter (·.2)).map fun d => (p.id, d.1, p.message d.1)
  count : p.count = (m.sent.filter (·.1 = p.id)).length

namespace Manager

section

omit [DecidableEq σ]

variable {m : Manager σ}

theorem mem_subsOf_iff {kind : Kind} {name : Bytes} {s : σ} :
    s ∈ m.subsOf kind name ↔ ∃ subs, (m.index kind)[name]? = some subs ∧ s ∈ subs := by
  rw [subsOf]
  cases (m.index kind)[name]? <;> simp

variable {channel : Bytes} {x : Subscription σ}

theorem mem_map_subs {subs : List σ} {kind : Kind} {name : Bytes} :
    x ∈ subs.map (⟨·, kind, name⟩) ↔ x.sub ∈ subs ∧ x.kind = kind ∧ x.name = name := by
  rw [List.mem_map]
  constructor
  · rintro ⟨s, hs, rfl⟩
    exact ⟨hs, rfl, rfl⟩
  · rintro ⟨hs, rfl, rfl⟩
    exact ⟨x.sub, hs, rfl⟩

theorem nodup_map_subs {subs : List σ} (h : subs.Nodup) (kind : Kind) (name : Bytes) :
    (subs.map (⟨·, kind, name⟩ : σ → Subscription σ)).Nodup :=
  h.map fun _ _ heq => congrArg Subscription.sub heq

/-- A send to the subscribers of a pattern. -/
theorem mem_patternSends {e : Bytes × List σ} :
    x ∈ (if matchPattern channel e.1 then e.2.map (⟨·, .pattern, e.1⟩) else []) ↔
      matchPattern channel e.1 = true ∧ x.sub ∈ e.2 ∧ x.kind = .pattern ∧ x.name = e.1 := by
  split
  · next hmatch => simp only [mem_map_subs, hmatch, true_and]
  · next hmatch => simp [hmatch]

theorem mem_sends (h : Mirror m) : x ∈ m.sends channel ↔ (x.kind = .channel ∧ x.name = channel ∨
      x.kind = .pattern ∧ matchPattern channel x.name = true) ∧ x.name ∈ (m.sub x.sub).own x.kind := by
  rw [sends, mem_append, mem_map_subs, mem_flatMap, ← h.both]
  constructor
  · rintro (⟨hs, hkind, hname⟩ | ⟨⟨pat, subs⟩, he, hx⟩)
    · rw [hkind, hname]
      exact ⟨.inl ⟨rfl, rfl⟩, hs⟩
    · obtain ⟨hmatch, hs, hkind, hname⟩ := mem_patternSends.mp hx
      rw [hkind, hname]
      exact ⟨.inr ⟨rfl, hmatch⟩,
        mem_subsOf_iff.mpr ⟨subs, mem_toList_iff_getElem?_eq_some.mp he, hs⟩⟩
  · rintro ⟨⟨hkind, hname⟩ | ⟨hkind, hmatch⟩, hs⟩
    · rw [hkind, hname] at hs
      exact .inl ⟨hs, hkind, hname⟩
    · rw [hkind] at hs
      obtain ⟨subs, hget, hs⟩ := mem_subsOf_iff.mp hs
      exact .inr ⟨(x.name, subs), mem_toList_iff_getElem?_eq_some.mpr hget,
        mem_patternSends.mpr ⟨hmatch, hs, hkind, rfl⟩⟩

theorem nodup_sends (h : Mirror m) (channel : Bytes) : (m.sends channel).Nodup := by
  rw [sends, nodup_append, nodup_flatMap]
  refine ⟨nodup_map_subs (nodup_subsOf h .channel channel) .channel channel, ⟨?_, ?_⟩, ?_⟩
  · rintro ⟨pat, subs⟩ he
    have hget := mem_toList_iff_getElem?_eq_some.mp he
    split
    · exact nodup_map_subs (h.tidy .pattern pat subs hget).2 .pattern pat
    · exact nodup_nil
  · -- different patterns give different subscriptions
    apply (m.index .pattern).distinct_keys_toList.imp
    intro e e' hne x hx hx'
    apply hne
    rw [← (mem_patternSends.mp hx).2.2.2, ← (mem_patternSends.mp hx').2.2.2]
    exact Std.ReflCmp.compare_self
  · rintro x hx _ hy rfl
    obtain ⟨e, -, hy⟩ := mem_flatMap.mp hy
    have hkind := (mem_map_subs.mp hx).2.1.symm.trans (mem_patternSends.mp hy).2.2.1
    cases hkind

theorem mem_sSends (h : Mirror m) : x ∈ m.sSends channel ↔ (x.kind = .shard ∧ x.name = channel) ∧
      x.name ∈ (m.sub x.sub).own x.kind := by
  rw [sSends, mem_map_subs, ← h.both, and_comm]
  apply and_congr_right
  rintro ⟨hkind, hname⟩
  rw [hkind, hname]

end

/-- What the next send of a publication does. -/
def SendsRight (m : Manager σ) : Prop :=
  ∀ (k : Nat) (p : Publication σ) (x : Subscription σ) (rest : List (Subscription σ)),
    m.publishing[k]? = some p → p.todo = x :: rest →
    ∃ m' p', m.send k = some m' ∧ m'.publishing[k]? = some p' ∧ p'.todo = rest ∧
      if (m.sub x.sub).buffer.length < capacity then
        p'.count = p.count + 1 ∧ ∀ s, (m'.sub s).buffer =
          if s = x.sub then (m.sub s).buffer ++ [p.message x] else (m.sub s).buffer
      else p'.count = p.count ∧ ∀ s, (m'.sub s).buffer = (m.sub s).buffer

/-- **Coherence.** The indexes mirror each other, a removed subscriber is in no set, publications are exact,
and a message is put where there is room, so a buffer holds what was put into it and not taken yet. -/
structure Sound (m : Manager σ) : Prop where
  mirror : m.Mirror
  removed : ∀ s, (m.sub s).closed = true → ∀ kind name, s ∉ m.subsOf kind name
  publications : ∀ (k : Nat) (p : Publication σ), m.publishing[k]? = some p → Exact m p
  buffers : ∀ s, m.taken s ++ (m.sub s).buffer = (m.sent.filter (·.2.1.sub = s)).map (·.2.2)
  sends : m.SendsRight
  returns : ∀ k m' n, m.finish k = some (m', n) → ∃ p, m.publishing[k]? = some p ∧ p.todo = [] ∧
    n = (m.sent.filter (·.1 = p.id)).length

/-- With what makes it inductive: publications have numbers of their own. -/
structure Inv (m : Manager σ) : Prop where
  mirror : m.Mirror
  removed : ∀ s, (m.sub s).closed = true → ∀ kind, (m.sub s).own kind = []
  publications : ∀ (k : Nat) (p : Publication σ), m.publishing[k]? = some p → Exact m p
  buffers : ∀ s, m.taken s ++ (m.sub s).buffer = (m.sent.filter (·.2.1.sub = s)).map (·.2.2)
  ids : ∀ (j k : Nat) (p q : Publication σ), m.publishing[j]? = some p → m.publishing[k]? = some q →
    p.id = q.id → j = k
  idLt : ∀ (k : Nat) (p : Publication σ), m.publishing[k]? = some p → p.id < m.next
  sentLt : ∀ e ∈ m.sent, e.1 < m.next

/-! ## What the calls keep -/

theorem inv_new : Inv (newPubSubManager : Manager σ) where
  mirror := by
    refine ⟨?_, ?_, ?_⟩
    · intro kind name s
      simp [subsOf, newPubSubManager, newSubscriber]
    · intro kind name subs hsubs
      simp [newPubSubManager] at hsubs
    · intro s kind
      exact nodup_nil
  removed _ _ _ := rfl
  publications k p hp := by cases hp
  buffers _ := rfl
  ids j k p q hp := by cases hp
  idLt k p hp := by cases hp
  sentLt e he := by cases he

variable {rest : List (Subscription σ)} {m : Manager σ} {k : Nat} {p : Publication σ}
  {x : Subscription σ} {m' : Manager σ}

/-- A call that holds the lock alone changes the sets only. -/
theorem inv_of_same (hidle : m.publishing = [])
    (hbuffers : ∀ s, m.taken s ++ (m.sub s).buffer = (m.sent.filter (·.2.1.sub = s)).map (·.2.2))
    (hsentLt : ∀ e ∈ m.sent, e.1 < m.next) (hmirror : Mirror m') (hsame : Same m m')
    (hremoved : ∀ s, (m.sub s).closed = true → ∀ kind, (m'.sub s).own kind = []) : Inv m' := by
  have hnone : ∀ (k : Nat) (p : Publication σ), m'.publishing[k]? ≠ some p := by
    intro k p hp
    rw [hsame.publishing, hidle] at hp
    cases hp
  refine ⟨hmirror, ?_, ?_, ?_, ?_, ?_, ?_⟩
  · intro s hclosed
    exact hremoved s ((hsame.closed s).symm.trans hclosed)
  · intro k p hp
    exact absurd hp (hnone k p)
  · intro s
    rw [hsame.taken, hsame.buffer, hsame.sent]
    exact hbuffers s
  · intro j k p q hp
    exact absurd hp (hnone j p)
  · intro k p hp
    exact absurd hp (hnone k p)
  · rw [hsame.sent, hsame.next]
    exact hsentLt

section

variable {m : Manager σ} (kind : Kind) (s : σ) (names : List Bytes)

theorem own_foldl_subscribeOne (m : Manager σ) {s' : σ} (hne : s' ≠ s) (k : Kind) :
    ((names.foldl (subscribeOne kind s) m).sub s').own k = (m.sub s').own k := by
  induction names generalizing m with
  | nil => rfl
  | cons name names ih =>
    rw [foldl_cons, ih, own_subscribeOne, if_neg fun hall => hne hall.1]

variable {s} in
theorem inv_subscribe (h : Inv m) (hidle : m.publishing = []) (hopen : (m.sub s).closed = false) :
    Inv (m.subscribe kind s names).1 := by
  apply inv_of_same hidle h.buffers h.sentLt
  · exact mirror_foldl h.mirror (fun _ h name => mirror_subscribeOne kind s name h) names
  · exact same_foldl (same_subscribeOne · kind s) m names
  · intro s' hwas k
    have hne : s' ≠ s := by
      rintro rfl
      rw [hopen] at hwas
      cases hwas
    exact (own_foldl_subscribeOne kind s names m hne k).trans (h.removed s' hwas k)

theorem mirror_foldl_drop (h : Mirror m) : Mirror (names.foldl (drop kind s) m) :=
  mirror_foldl h (fun _ h name => mirror_drop kind s name h) names

theorem inv_unsubscribe (h : Inv m) (hidle : m.publishing = []) : Inv (m.unsubscribe kind s names).1 := by
  rw [unsubscribe_fst kind s h.mirror]
  apply inv_of_same hidle h.buffers h.sentLt (mirror_foldl_drop kind s _ h.mirror)
    (same_foldl (same_drop · kind s) m _)
  intro s' hwas k
  rw [eq_nil_iff_forall_not_mem]
  intro n hn
  have hmem := ((mem_own_foldl_drop kind s h.mirror _ s' k n).mp hn).1
  rw [h.removed s' hwas k] at hmem
  cases hmem

theorem own_unsubscribe_of_ne (h : Mirror m) {s' : σ} {k : Kind} (hne : ¬ (s' = s ∧ k = kind)) :
    (((m.unsubscribe kind s names).1).sub s').own k = (m.sub s').own k := by
  rw [unsubscribe_fst kind s h]
  induction m.namesOr kind s names generalizing m with
  | nil => rfl
  | cons name names ih => rw [foldl_cons, ih (mirror_drop kind s name h), own_drop, if_neg hne]

/-- The names given are all the subscriber has, so none stay. -/
theorem unsubscribe_own (h : Mirror m) (hnames : (m.sub s).own kind = names) :
    Mirror (m.unsubscribe kind s names).1 ∧ Same m (m.unsubscribe kind s names).1 ∧
      ∀ s' k, ((m.unsubscribe kind s names).1.sub s').own k =
        if s' = s ∧ k = kind then [] else (m.sub s').own k := by
  refine ⟨?_, ?_, fun s' k => ?_⟩
  · rw [unsubscribe_fst kind s h]
    exact mirror_foldl_drop kind s _ h
  · rw [unsubscribe_fst kind s h]
    exact same_foldl (same_drop · kind s) m _
  · split
    · next hs =>
      have hall : m.namesOr kind s names = names := by
        rw [namesOr, hnames]
        split <;> rfl
      rw [hs.1, hs.2, unsubscribe_fst kind s h, hall, eq_nil_iff_forall_not_mem]
      intro n hn
      have hout := (mem_own_foldl_drop kind s h _ s kind n).mp hn
      exact hout.2 ⟨rfl, rfl, hnames ▸ hout.1⟩
    · next hs => exact own_unsubscribe_of_ne kind s _ h hs

theorem inv_removeSubscriber (h : Inv m) (hidle : m.publishing = []) : Inv (m.removeSubscriber s) := by
  rw [removeSubscriber]
  split
  · exact h
  · -- the buffer is closed first; the names were read before
    let m₁ := { m with sub := Function.update m.sub s { m.sub s with closed := true } }
    have hown : ∀ s', (m₁.sub s').own = (m.sub s').own := update_sub m s (·.own) rfl
    have hbuffer : ∀ s', (m₁.sub s').buffer = (m.sub s').buffer := update_sub m s (·.buffer) rfl
    have hmirror : Mirror m₁ := h.mirror.congr rfl hown
    obtain ⟨hmirror, hchannel, hown₁⟩ :=
      unsubscribe_own .channel s ((m.sub s).own .channel) hmirror (by rw [hown])
    obtain ⟨hmirror, hpattern, hown₂⟩ :=
      unsubscribe_own .pattern s ((m.sub s).own .pattern) hmirror (by simp [hown₁, hown])
    obtain ⟨hmirror, hshard, hown₃⟩ :=
      unsubscribe_own .shard s ((m.sub s).own .shard) hmirror (by simp [hown₂, hown₁, hown])
    refine inv_of_same (m := m₁) hidle ?_ h.sentLt hmirror ((hchannel.trans hpattern).trans hshard) ?_
    · intro s'
      rw [hbuffer]
      exact h.buffers s'
    · intro s' hclosed k
      by_cases hs : s' = s
      · subst hs
        cases k <;> rw [hown₃, hown₂, hown₁] <;> simp
      · rw [hown₃, hown₂, hown₁, if_neg, if_neg, if_neg, hown]
        · refine h.removed s' ?_ k
          simpa [m₁, hs] using hclosed
        all_goals exact fun hall => hs hall.1

end

/-! ## What publishing keeps -/

theorem exact_begin (h : Inv m) (shard : Bool) (channel data : Bytes) :
    Exact (m.begin shard channel data)
      ⟨m.next, shard, channel, data, if shard then m.sSends channel else m.sends channel, [], 0⟩ := by
  have hnone : m.sent.filter (·.1 = m.next) = [] := by
    rw [filter_eq_nil_iff]
    intro e he
    have hlt := h.sentLt e he
    simp
    omega
  refine ⟨?_, ?_, hnone, ?_⟩
  · cases shard with
    | false => exact nodup_sends h.mirror channel
    | true => exact nodup_map_subs (nodup_subsOf h.mirror .shard channel) .shard channel
  · intro x
    cases shard with
    | false => exact mem_sends h.mirror
    | true => exact mem_sSends h.mirror
  · exact (congrArg List.length hnone).symm

omit [DecidableEq σ] in
/-- A publication stays exact when subscriptions and its own messages do. -/
theorem exact_congr (h : Exact m p) (hown : ∀ s, (m'.sub s).own = (m.sub s).own)
    (hsent : m'.sent.filter (·.1 = p.id) = m.sent.filter (·.1 = p.id)) : Exact m' p := by
  refine ⟨h.nodup, ?_, ?_, ?_⟩
  · intro x
    rw [hown]
    exact h.matching x
  · rw [hsent]
    exact h.puts
  · rw [hsent]
    exact h.count

theorem inv_begin (h : Inv m) (shard : Bool) (channel data : Bytes) :
    Inv (m.begin shard channel data) := by
  have hat : ∀ (k : Nat) (p : Publication σ), (m.begin shard channel data).publishing[k]? = some p →
      m.publishing[k]? = some p ∨ k = m.publishing.length ∧ p =
        ⟨m.next, shard, channel, data, if shard then m.sSends channel else m.sends channel, [], 0⟩ := by
    intro k p hp
    rcases Nat.lt_trichotomy k m.publishing.length with hlt | heq | hgt
    · exact .inl ((getElem?_append_left hlt).symm.trans hp)
    · subst heq
      refine .inr ⟨rfl, ?_⟩
      rw [begin, getElem?_append_right (Nat.le_refl _), Nat.sub_self] at hp
      exact (some.inj hp).symm
    · rw [begin, List.getElem?_eq_none] at hp
      · cases hp
      · simp
        omega
  refine ⟨h.mirror.congr rfl fun _ => rfl, h.removed, ?_, h.buffers, ?_, ?_, ?_⟩
  · intro k p hp
    rcases hat k p hp with hold | ⟨-, rfl⟩
    · exact exact_congr (h.publications k p hold) (fun _ => rfl) rfl
    · exact exact_begin h shard channel data
  · intro j k p q hp hq hid
    rcases hat j p hp with hp | ⟨rfl, rfl⟩
    · rcases hat k q hq with hq | ⟨rfl, rfl⟩
      · exact h.ids j k p q hp hq hid
      · exact absurd hid (Nat.ne_of_lt (h.idLt j p hp))
    · rcases hat k q hq with hq | ⟨rfl, rfl⟩
      · exact absurd hid.symm (Nat.ne_of_lt (h.idLt k q hq))
      · rfl
  · intro k p hp
    rcases hat k p hp with hold | ⟨-, rfl⟩
    · exact Nat.lt_succ_of_lt (h.idLt k p hold)
    · exact Nat.lt_succ_self m.next
  · intro e he
    exact Nat.lt_succ_of_lt (h.sentLt e he)

/-- A matching subscriber is open: a removed one has no subscriptions. -/
theorem Inv.open_of_todo (h : Inv m) (hp : m.publishing[k]? = some p)
    (hx : x ∈ p.todo) : (m.sub x.sub).closed = false := by
  have hown := (((h.publications k p hp).matching x).mp (mem_append_right _ hx)).2
  rw [Bool.eq_false_iff]
  intro hclosed
  rw [h.removed x.sub hclosed] at hown
  cases hown

theorem own_put (m : Manager σ) (id : Nat) (x : Subscription σ) (msg : Message) (s : σ) :
    ((m.put id x msg).sub s).own = (m.sub s).own :=
  update_sub m x.sub (·.own) (by rfl) s

theorem buffer_put (m : Manager σ) (id : Nat) (x : Subscription σ) (msg : Message) (s : σ) :
    ((m.put id x msg).sub s).buffer =
      if s = x.sub then (m.sub s).buffer ++ [msg] else (m.sub s).buffer := by
  by_cases hs : s = x.sub
  · subst hs
    simp [put]
  · simp [put, hs]

/-- What a send does, with its guards. -/
theorem send_cases (h : m.send k = some m') :
    ∃ p x rest, m.publishing[k]? = some p ∧ p.todo = x :: rest ∧
      ((m.HasRoom x.sub ∧ m' = { m.put p.id x (p.message x) with
          publishing := m.publishing.set k (p.advance x rest true) }) ∨
        (¬ m.HasRoom x.sub ∧ m' = { m with
          publishing := m.publishing.set k (p.advance x rest false) })) := by
  rw [send] at h
  split at h
  · cases h
  · next p hp =>
    split at h
    · cases h
    · next x rest htodo =>
      refine ⟨p, x, rest, hp, htodo, ?_⟩
      split at h
      · next hroom => exact .inl ⟨hroom, (some.inj h).symm⟩
      · next hroom => exact .inr ⟨hroom, (some.inj h).symm⟩

omit [DecidableEq σ] in
theorem getElem?_set_publishing {l : List (Publication σ)} {p' : Publication σ}
    (hp : l[k]? = some p) {j : Nat} {q : Publication σ} (hq : (l.set k p')[j]? = some q) :
    (j = k ∧ q = p') ∨ (j ≠ k ∧ l[j]? = some q) := by
  by_cases hj : j = k
  · subst hj
    have hlt : j < l.length := (List.getElem?_eq_some_iff.mp hp).1
    rw [getElem?_set_self hlt] at hq
    exact .inl ⟨rfl, (some.inj hq).symm⟩
  · rw [getElem?_set_ne fun heq => hj heq.symm] at hq
    exact .inr ⟨hj, hq⟩

/-- The publication goes on by one send, and the others do not see it. -/
theorem Inv.advance (h : Inv m)
    (hp : m.publishing[k]? = some p) (p' : Publication σ) (hpublishing : m'.publishing = m.publishing.set k p')
    (hid : p'.id = p.id) (hexact : Exact m' p') (hindex : m'.index = m.index)
    (hown : ∀ s, (m'.sub s).own = (m.sub s).own) (hclosed : ∀ s, (m'.sub s).closed = (m.sub s).closed)
    (hnext : m'.next = m.next) (hbuffers : ∀ s, m'.taken s ++ (m'.sub s).buffer =
      (m'.sent.filter (·.2.1.sub = s)).map (·.2.2))
    (hsent : ∀ e ∈ m'.sent, e ∈ m.sent ∨ e.1 = p.id)
    (hothers : ∀ id, id ≠ p.id → m'.sent.filter (·.1 = id) = m.sent.filter (·.1 = id)) : Inv m' := by
  refine ⟨h.mirror.congr hindex hown, ?_, ?_, hbuffers, ?_, ?_, ?_⟩
  · intro s hwas kind
    rw [hown]
    exact h.removed s ((hclosed s).symm.trans hwas) kind
  · intro j q hq
    rw [hpublishing] at hq
    rcases getElem?_set_publishing hp hq with ⟨rfl, rfl⟩ | ⟨hne, hq⟩
    · exact hexact
    · apply exact_congr (h.publications j q hq) hown
      apply hothers
      intro heq
      exact hne (h.ids j k q p hq hp heq)
  · intro i j q r hq hr heq
    rw [hpublishing] at hq hr
    rcases getElem?_set_publishing hp hq with ⟨rfl, rfl⟩ | ⟨-, hq⟩
    · rcases getElem?_set_publishing hp hr with ⟨rfl, -⟩ | ⟨-, hr⟩
      · rfl
      · exact h.ids i j p r hp hr (hid.symm.trans heq)
    · rcases getElem?_set_publishing hp hr with ⟨hj, hr⟩ | ⟨-, hr⟩
      · rw [hr, hid] at heq
        rw [hj]
        exact h.ids i k q p hq hp heq
      · exact h.ids i j q r hq hr heq
  · intro j q hq
    rw [hpublishing] at hq
    rw [hnext]
    rcases getElem?_set_publishing hp hq with ⟨rfl, rfl⟩ | ⟨-, hq⟩
    · rw [hid]
      exact h.idLt j p hp
    · exact h.idLt j q hq
  · intro e he
    rw [hnext]
    rcases hsent e he with hold | hnew
    · exact h.sentLt e hold
    · rw [hnew]
      exact h.idLt k p hp

omit [DecidableEq σ] in
/-- The send moves a subscription from one list to the other. -/
theorem list_advance (htodo : p.todo = x :: rest) (put : Bool) :
    (p.advance x rest put).done.map (·.1) ++ (p.advance x rest put).todo = p.done.map (·.1) ++ p.todo := by
  simp [Publication.advance, htodo]

omit [DecidableEq σ] in
theorem exact_skip (h : Exact m p) (htodo : p.todo = x :: rest) :
    Exact m (p.advance x rest false) := by
  refine ⟨?_, ?_, ?_, h.count⟩
  · rw [list_advance htodo]
    exact h.nodup
  · intro y
    rw [list_advance htodo]
    exact h.matching y
  · refine h.puts.trans ?_
    simp [Publication.advance, Publication.message]

theorem exact_put (h : Exact m p) (htodo : p.todo = x :: rest) :
    Exact (m.put p.id x (p.message x)) (p.advance x rest true) := by
  have hsent : (m.put p.id x (p.message x)).sent.filter (·.1 = p.id) =
      m.sent.filter (·.1 = p.id) ++ [(p.id, x, p.message x)] := by
    simp [put]
  refine ⟨?_, ?_, ?_, ?_⟩
  · rw [list_advance htodo]
    exact h.nodup
  · intro y
    rw [list_advance htodo, own_put]
    exact h.matching y
  · refine hsent.trans ?_
    rw [h.puts]
    simp [Publication.advance, Publication.message]
  · refine Eq.trans ?_ (congrArg List.length hsent).symm
    rw [length_append, ← h.count]
    rfl

theorem inv_send (h : Inv m) (hsend : m.send k = some m') : Inv m' := by
  obtain ⟨p, x, rest, hp, htodo, ⟨hroom, rfl⟩ | ⟨hroom, rfl⟩⟩ := send_cases hsend
  · apply h.advance hp (p.advance x rest true) rfl rfl
    · exact exact_congr (exact_put (h.publications k p hp) htodo) (fun _ => rfl) rfl
    · rfl
    · exact own_put m p.id x _
    · exact update_sub m x.sub (·.closed) rfl
    · rfl
    · intro s
      change m.taken s ++ ((m.put p.id x (p.message x)).sub s).buffer =
        ((m.sent ++ [(p.id, x, p.message x)]).filter (·.2.1.sub = s)).map (·.2.2)
      rw [buffer_put, filter_append, map_append, ← h.buffers s]
      by_cases hs : s = x.sub
      · subst hs
        simp
      · have hne : x.sub ≠ s := fun heq => hs heq.symm
        simp [hs, hne]
    · intro e he
      rcases mem_append.mp he with hold | hnew
      · exact .inl hold
      · rw [mem_singleton.mp hnew]
        exact .inr rfl
    · intro id hne
      have hne : p.id ≠ id := fun heq => hne heq.symm
      simp [put, hne]
  · apply h.advance hp (p.advance x rest false) rfl rfl
    · exact exact_congr (exact_skip (h.publications k p hp) htodo) (fun _ => rfl) rfl
    · rfl
    · exact fun _ => rfl
    · exact fun _ => rfl
    · rfl
    · exact h.buffers
    · exact fun e he => .inl he
    · exact fun _ _ => rfl

theorem Inv.sendsRight (h : Inv m) : m.SendsRight := by
  intro k p x rest hp htodo
  have hopen := h.open_of_todo hp (htodo ▸ mem_cons_self : x ∈ p.todo)
  have hroom : m.HasRoom x.sub ↔ (m.sub x.sub).buffer.length < capacity := by
    rw [HasRoom, hopen]
    simp
  have hlt : k < m.publishing.length := (List.getElem?_eq_some_iff.mp hp).1
  by_cases hlen : (m.sub x.sub).buffer.length < capacity
  · have hsend : m.send k = some { m.put p.id x (p.message x) with
        publishing := m.publishing.set k (p.advance x rest true) } := by
      rw [send, hp]
      dsimp only
      rw [htodo]
      dsimp only
      rw [if_pos (hroom.mpr hlen)]
    refine ⟨_, _, hsend, getElem?_set_self hlt, rfl, ?_⟩
    rw [if_pos hlen]
    exact ⟨rfl, buffer_put m p.id x _⟩
  · have hsend : m.send k = some { m with
        publishing := m.publishing.set k (p.advance x rest false) } := by
      rw [send, hp]
      dsimp only
      rw [htodo]
      dsimp only
      rw [if_neg fun hall => hlen (hroom.mp hall)]
    refine ⟨_, _, hsend, getElem?_set_self hlt, rfl, ?_⟩
    rw [if_neg hlen]
    exact ⟨rfl, fun _ => rfl⟩

theorem inv_finish (h : Inv m) (k : Nat) :
    Inv { m with publishing := m.publishing.eraseIdx k } := by
  have hat : ∀ (j : Nat) (q : Publication σ), (m.publishing.eraseIdx k)[j]? = some q →
      m.publishing[if j < k then j else j + 1]? = some q := by
    intro j q hq
    rw [getElem?_eraseIdx] at hq
    split at hq
    · next hlt => rwa [if_pos hlt]
    · next hlt => rwa [if_neg hlt]
  refine ⟨h.mirror.congr rfl fun _ => rfl, h.removed, ?_, h.buffers, ?_, ?_, h.sentLt⟩
  · intro j q hq
    exact exact_congr (h.publications _ q (hat j q hq)) (fun _ => rfl) rfl
  · intro i j q r hq hr heq
    have hidx := h.ids _ _ q r (hat i q hq) (hat j r hr) heq
    split at hidx <;> split at hidx <;> omega
  · intro j q hq
    exact h.idLt _ q (hat j q hq)

theorem inv_receive (h : Inv m) {s : σ} (hreceive : m.receive s = some m') : Inv m' := by
  rw [receive] at hreceive
  cases hbuffer : (m.sub s).buffer with
  | nil =>
    rw [hbuffer] at hreceive
    cases hreceive
  | cons msg buffer =>
    rw [hbuffer] at hreceive
    cases hreceive
    have hown := update_sub m s (·.own) (t := { m.sub s with buffer := buffer }) rfl
    have hclosed := update_sub m s (·.closed) (t := { m.sub s with buffer := buffer }) rfl
    refine ⟨h.mirror.congr rfl hown, ?_, ?_, ?_, h.ids, h.idLt, h.sentLt⟩
    · intro s' hwas kind
      exact (congrFun (hown s') kind).trans (h.removed s' ((hclosed s').symm.trans hwas) kind)
    · intro k p hp
      exact exact_congr (h.publications k p hp) hown rfl
    · intro s'
      refine Eq.trans ?_ (h.buffers s')
      by_cases hs : s' = s
      · subst hs
        simp [hbuffer]
      · simp [hs]

end Manager

/-- The condition: who subscribes was not removed before. -/
def Condition (m : Manager σ) : Act σ → Prop
  | .subscribe _ s _ => (m.sub s).closed = false
  | _ => True

instance (m : Manager σ) : (a : Act σ) → Decidable (Condition m a)
  | .subscribe _ s _ => inferInstanceAs (Decidable ((m.sub s).closed = false))
  | .unsubscribe .. | .remove _ | .begin .. | .send _ | .finish _ | .receive _ => .isTrue trivial

namespace Manager

omit [DecidableEq σ] in
theorem finish_cases {m m' : Manager σ} {k n : Nat} (h : m.finish k = some (m', n)) :
    ∃ p, m.publishing[k]? = some p ∧ p.todo = [] ∧ n = p.count ∧
      m' = { m with publishing := m.publishing.eraseIdx k } := by
  rw [finish] at h
  split at h
  · cases h
  · next p hp =>
    split at h
    · next htodo =>
      cases h
      exact ⟨p, hp, htodo, rfl, rfl⟩
    · cases h

theorem inv_step {m m' : Manager σ} {a : Act σ} (hok : Condition m a) (h : Inv m)
    (hstep : m.step a = some m') : Inv m' := by
  cases a with
  | subscribe kind s names =>
    rw [step] at hstep
    split at hstep
    · next hidle =>
      rw [← some.inj hstep]
      exact inv_subscribe kind names h hidle hok
    · cases hstep
  | unsubscribe kind s names =>
    rw [step] at hstep
    split at hstep
    · next hidle =>
      rw [← some.inj hstep]
      exact inv_unsubscribe kind s names h hidle
    · cases hstep
  | remove s =>
    rw [step] at hstep
    split at hstep
    · next hidle =>
      rw [← some.inj hstep]
      exact inv_removeSubscriber s h hidle
    · cases hstep
  | begin shard channel data =>
    rw [← some.inj hstep]
    exact inv_begin h shard channel data
  | send k => exact inv_send h hstep
  | finish k =>
    obtain ⟨⟨m'', count⟩, hfinish, rfl⟩ := map_eq_some_iff.mp hstep
    obtain ⟨p, -, -, -, rfl⟩ := finish_cases hfinish
    exact inv_finish h k
  | receive s => exact inv_receive h hstep

theorem Inv.sound {m : Manager σ} (h : Inv m) : Sound m := by
  refine ⟨h.mirror, ?_, h.publications, h.buffers, h.sendsRight, ?_⟩
  · intro s hclosed kind name hin
    have hown := (h.mirror.both kind name s).mp hin
    rw [h.removed s hclosed] at hown
    cases hown
  · intro k m' n hfinish
    obtain ⟨p, hp, htodo, rfl, -⟩ := finish_cases hfinish
    exact ⟨p, hp, htodo, (h.publications k p hp).count⟩

end Manager

/-- **The sets of subscribers**: whatever calls, sends and receptions are interleaved, if no removed subscriber
subscribes again then the indexes mirror each other, no set is empty, who was removed is in none, and a
publication puts one message for each matching subscription that has room and returns their number. -/
theorem pubsub_index_exact (as : List (Act σ)) (m : Manager σ)
    (hok : Meets Manager.step Condition newPubSubManager as)
    (hrun : run Manager.step newPubSubManager as = some m) : m.Sound :=
  (run_invariant (fun _ _ _ h hok hstep => Manager.inv_step hok h hstep) Manager.inv_new hok hrun).sound

/-- A subscriber of the channel and of a pattern gets a publication twice. -/
def twice : List (Act Bool) :=
  [.subscribe .channel false [[97]], .subscribe .pattern false [[42]], .subscribe .shard true [[97]],
    .remove true, .begin false [97] [1], .send 0, .send 0]

theorem pubsub_index_exact_twice :
    ∃ m : Manager Bool, run Manager.step newPubSubManager twice = some m ∧
      ((m.finish 0).map (·.2) = some 2 ∧ (m.sub true).closed = true) ∧ m.Sound := by
  obtain ⟨m, hrun, hend⟩ : ∃ m, run Manager.step newPubSubManager twice = some m ∧
      ((m.finish 0).map (·.2) = some 2 ∧ (m.sub true).closed = true) := run_end (by decide +kernel)
  exact ⟨m, hrun, hend, pubsub_index_exact twice m (by decide +kernel) hrun⟩

/-- `RemoveSubscriber` returns at once for a closed buffer, so what was subscribed after the first removal
stays, and gets no message. -/
theorem removed_subscriber_listed :
    ∃ m : Manager Bool, run Manager.step newPubSubManager [.subscribe .channel true [[97]], .remove true,
        .subscribe .channel true [[97]], .remove true, .begin false [97] [1], .send 0] = some m ∧
      ((m.sub true).closed = true ∧ true ∈ m.subsOf .channel [97] ∧ m.sent = []) :=
  run_end (by decide +kernel)

end BoltDB.Store.PubSub
