import BoltDB.Lib.Interleaving
import BoltDB.Store.ListContents

/-!
# Blocking pops

`blpop.go`, `lpush_rpop.go` and the replies of `list_commands.go`. A client that finds its lists empty
leaves a channel with each of them and looks again; a push hands the value that it has pushed to the
first channel of its list. `BLMOVE` and `BRPOPLPUSH` take this as a sign to try again. `BLPOP`, `BRPOP`
and `BLMPOP` return the value they were handed, which is still in the list.

Clients act one after the other in any order. An action is one transaction, or one turn with the lock
on the channels.
-/

namespace BoltDB.Store.Blocking

open Bytes KeyValue Interleaving Transition BoltDB.Store.Lists List Function

/-! ## The channels -/

/-- A channel is made for each call; it holds at most one result. -/
abbrev Chan := Nat

/-- The time of an action, and names for the nodes it makes. -/
structure Input where
  now : Nat
  ids : Nat → Bytes

structure Shared where
  db : Db
  blockingPopChans : Bytes → List Chan := fun _ => []
  buffer : Chan → Option (Bytes × Bytes) := fun _ => none
  /-- every value that a push has put into a list -/
  pushed : List Bytes := []

namespace Shared

def notifyBlockingPop (key value : Bytes) (s : Shared) : Shared :=
  match s.blockingPopChans key with
  | [] => s
  | ch :: rest =>
    match s.buffer ch with
    | some _ => s
    | none => { s with
        buffer := Function.update s.buffer ch (some (key, value))
        blockingPopChans := Function.update s.blockingPopChans key rest }

/-- `registerBlockingPop`, for one key after the other. -/
def registerBlockingPop (keys : List Bytes) (ch : Chan) (s : Shared) : Shared :=
  { s with
    blockingPopChans :=
      keys.foldl (fun chans key => Function.update chans key (chans key ++ [ch])) s.blockingPopChans }

def unregisterBlockingPop (ch : Chan) (keys : List Bytes) (s : Shared) : Shared :=
  { s with
    blockingPopChans :=
      keys.foldl (fun chans key => Function.update chans key ((chans key).erase ch)) s.blockingPopChans }

end Shared

/-! ## Replies -/

inductive Reply
  | length (n : UInt64)
  | popped (key : Bytes) (values : List Bytes)
  | moved (value : Bytes)
  | nil
  | error (e : Err)
  | panic

/-- The values that a client gets. -/
def Reply.values : Reply → List Bytes
  | popped _ values => values
  | moved value => [value]
  | _ => []

/-- `BLPOP`, `BRPOP`, `BLMPOP` and `LMPOP`: an empty key stands for nothing. -/
def keyReply (key : Bytes) (values : List Bytes) : Reply :=
  if key = [] then .nil else .popped key values

/-- `LMOVE` and `RPOPLPUSH`: so does an empty value. -/
def moveReply : Except Err Bytes → Reply
  | .ok [] => .nil
  | .ok value => .moved value
  | .error e => .error e

/-- A call returns, or waits for its channel. -/
inductive Outcome
  | reply (r : Reply)
  | block

/-- What is left of a call. -/
abbrev Program := Prog Input Shared Outcome

def finish (r : Reply) : Program := .ret (.reply r)

/-! ## Actions -/

/-- One transaction; `added` is what it has pushed, by what it returned. -/
def transact {α : Type} (m : Input → Run Err α) (added : Except Err α → List Bytes)
    (k : Except Err α → Program) : Program :=
  Prog.perform (fun t s => ((m t s.db).1,
    { s with db := (m t s.db).2, pushed := s.pushed ++ added (m t s.db).1 })) k

/-- One turn with the lock on the channels. -/
def locked (f : Shared → Shared) (k : Program) : Program := .call (fun _ s => f s) fun _ _ => k

/-- `LPop` and `RPop`: the type is checked before the lock of the key is taken. -/
def pop (fromLeft : Bool) (key : Bytes) (k : Except Err Bytes → Program) : Program :=
  transact (fun t => view t.now (checkKeyType key .list)) (fun _ => []) fun
    | .error e => k (.error e)
    | .ok _ => transact (fun t => update t.now (popTxn fromLeft key)) (fun _ => []) k

/-- The end of `LPush` and `RPush`: the first value is announced, whether it was pushed or not. -/
def announce (key : Bytes) (values : List Bytes) (r : Except Err UInt64) : Program :=
  match values with
  | [] => finish .panic
  | v :: _ => locked (.notifyBlockingPop key v) (finish (match r with
      | .ok n => .length n
      | .error e => .error e))

/-- `LPush` and `RPush`. -/
def push (toLeft : Bool) (key : Bytes) (values : List Bytes) : Program :=
  transact (fun t => update t.now (pushTxn toLeft key (withIDs t.ids values)))
    (fun | .ok _ => values | .error _ => []) (announce key values)

/-- `LPUSHX` and `RPUSHX`: the first value is announced, or the last. -/
def pushX (toLeft : Bool) (key : Bytes) (values : List Bytes) : Program :=
  transact (fun t => update t.now (pushXTxn toLeft key (withIDs t.ids values)))
    (fun | .ok n => if n = 0 then [] else values | .error _ => []) fun
    | .error e => finish (.error e)
    | .ok n =>
      match if toLeft then values.head? else values.getLast? with
      | none => finish (.length n)
      | some v =>
        if n = 0 then finish (.length n)
        else locked (.notifyBlockingPop key v) (finish (.length n))

/-- What a move has pushed: the value it returns. -/
def movedValues : Except Err Bytes → List Bytes
  | .ok [] => []
  | .ok value => [value]
  | .error _ => []

def rPopLPush (source destination : Bytes) (k : Except Err Bytes → Program) : Program :=
  transact (fun t => update t.now (rPopLPushTxn source destination (t.ids 0))) movedValues k

def lMove (source destination : Bytes) (fromLeft toLeft : Bool) (k : Except Err Bytes → Program) :
    Program :=
  transact (fun t => update t.now (lMoveTxn source destination fromLeft toLeft (t.ids 0))) movedValues
    fun r =>
      match movedValues r with
      | [] => k r
      | v :: _ => locked (.notifyBlockingPop destination v) (k r)

/-- `LMPop`: the first key that gives something. -/
def lMPop (fromLeft : Bool) (count : Int64) : List Bytes → Program
  | [] => finish .nil
  | key :: keys =>
    transact (fun t => view t.now (checkKeyType key .list)) (fun _ => []) fun
      | .error e => finish (.error e)
      | .ok _ =>
        transact (fun t => update t.now (lMPopTxn fromLeft key count)) (fun _ => []) fun
          | .error e => finish (.error e)
          | .ok [] => lMPop fromLeft count keys
          | .ok values => finish (keyReply key values)

/-! ## Blocking calls -/

/-- One pop from each of the keys, up to the first that gives a value. An error counts as no value. -/
def popFirst (fromLeft : Bool) (found : Bytes → Bytes → Program) (none : Program) :
    List Bytes → Program
  | [] => none
  | key :: keys => pop fromLeft key fun
      | .ok (b :: v) => found key (b :: v)
      | _ => popFirst fromLeft found none keys

/-- `registerAndRecheck`, and the wait. -/
def registerAndRecheck (fromLeft : Bool) (keys : List Bytes) (ch : Chan) : Program :=
  locked (.registerBlockingPop keys ch) (popFirst fromLeft
    (fun key v => locked (.unregisterBlockingPop ch keys) (finish (keyReply key [v])))
    (.ret .block) keys)

/-- `BLPOPBlocking` and `BRPOPBlocking`. -/
def bPop (fromLeft : Bool) (keys : List Bytes) (ch : Chan) : Program :=
  popFirst fromLeft (fun key v => finish (keyReply key [v])) (registerAndRecheck fromLeft keys ch) keys

/-- Up to `n` more pops from one key. -/
def popMany (fromLeft : Bool) (key : Bytes) (k : List Bytes → Program) : Nat → List Bytes → Program
  | 0, values => k values
  | n + 1, values => pop fromLeft key fun
      | .ok [] => k values
      | .ok v => popMany fromLeft key k n (values ++ [v])
      | .error e => finish (.error e)

/-- The immediate part of `BLMPopBlocking`. -/
def popManyFirst (fromLeft : Bool) (count : Nat) (none : Program) : List Bytes → Program
  | [] => none
  | key :: keys => popMany fromLeft key (fun
      | [] => popManyFirst fromLeft count none keys
      | values => finish (keyReply key values)) count []

def bLMPop (fromLeft : Bool) (keys : List Bytes) (count : Nat) (ch : Chan) : Program :=
  popManyFirst fromLeft count (registerAndRecheck fromLeft keys ch) keys

/-- `BLMoveBlocking` and `BRPOPLPUSHBlocking`, by what they try. -/
def bMove (attempt : (Except Err Bytes → Program) → Program) (source : Bytes) (ch : Chan) : Program :=
  attempt fun r =>
    match movedValues r with
    | v :: _ => finish (.moved v)
    | [] => locked (.registerBlockingPop [source] ch) (attempt fun r =>
        match movedValues r with
        | v :: _ => locked (.unregisterBlockingPop ch [source]) (finish (.moved v))
        | [] => .ret .block)

/-- The loop of the two after a result has come. -/
def bMoveAgain (attempt : (Except Err Bytes → Program) → Program) (source : Bytes) (ch : Chan) :
    Program :=
  attempt fun r =>
    match movedValues r with
    | v :: _ => finish (.moved v)
    | [] => locked (.registerBlockingPop [source] ch) (.ret .block)

inductive Cmd
  | push (toLeft : Bool) (key : Bytes) (values : List Bytes)
  | pushX (toLeft : Bool) (key : Bytes) (values : List Bytes)
  | pop (fromLeft : Bool) (key : Bytes)
  | lMPop (fromLeft : Bool) (keys : List Bytes) (count : Int64)
  | rPopLPush (source destination : Bytes)
  | lMove (source destination : Bytes) (fromLeft toLeft : Bool)
  | bPop (fromLeft : Bool) (keys : List Bytes)
  | bLMPop (fromLeft : Bool) (keys : List Bytes) (count : Nat)
  | bRPopLPush (source destination : Bytes)
  | bLMove (source destination : Bytes) (fromLeft toLeft : Bool)

namespace Cmd

/-- A call from its start. -/
def start (ch : Chan) : Cmd → Program
  | push toLeft key values => Blocking.push toLeft key values
  | pushX toLeft key values => Blocking.pushX toLeft key values
  | pop fromLeft key => Blocking.pop fromLeft key fun
      | .ok [] => finish .nil
      | .ok v => finish (.popped key [v])
      | .error e => finish (if e = .wrongType then .error e else .nil)
  | lMPop fromLeft keys count => Blocking.lMPop fromLeft count keys
  | rPopLPush source destination => Blocking.rPopLPush source destination fun r => finish (moveReply r)
  | lMove source destination fromLeft toLeft =>
    Blocking.lMove source destination fromLeft toLeft fun r => finish (moveReply r)
  | bPop fromLeft keys => Blocking.bPop fromLeft keys ch
  | bLMPop fromLeft keys count => Blocking.bLMPop fromLeft keys count ch
  | bRPopLPush source destination => bMove (Blocking.rPopLPush source destination) source ch
  | bLMove source destination fromLeft toLeft =>
    bMove (Blocking.lMove source destination fromLeft toLeft) source ch

/-- The call goes on with a result from its channel. -/
def resume (ch : Chan) (result : Bytes × Bytes) : Cmd → Program
  | bRPopLPush source destination => bMoveAgain (Blocking.rPopLPush source destination) source ch
  | bLMove source destination fromLeft toLeft =>
    bMoveAgain (Blocking.lMove source destination fromLeft toLeft) source ch
  | _ => finish (keyReply result.1 [result.2])

/-- The keys that have the channel. -/
def waitsFor : Cmd → List Bytes
  | bPop _ keys | bLMPop _ keys _ => keys
  | bRPopLPush source _ | bLMove source _ _ _ => [source]
  | _ => []

/-- The time is over, or the client or the store is gone. -/
def expire (ch : Chan) (cmd : Cmd) : Program :=
  locked (.unregisterBlockingPop ch cmd.waitsFor) (finish .nil)

end Cmd

/-! ## Clients -/

inductive Client
  | idle
  | running (cmd : Cmd) (ch : Chan) (rest : Program)
  | blocked (cmd : Cmd) (ch : Chan)

def Client.isRunning : Client → Bool
  | running _ _ _ => true
  | _ => false

structure State (ι : Type) where
  shared : Shared
  client : ι → Client
  /-- how many calls there have been -/
  calls : Nat
  /-- every value that a client has got -/
  returned : List (ι × Bytes)

inductive Act (ι : Type)
  | start (i : ι) (cmd : Cmd)
  | act (i : ι) (t : Input)
  | receive (i : ι)
  | timeout (i : ι)

section System

variable {ι : Type} [DecidableEq ι]

/-- A client with what is left of its call. -/
def State.settle (s : State ι) (i : ι) (cmd : Cmd) (ch : Chan) : Program → State ι
  | .ret (.reply r) => { s with
      client := Function.update s.client i .idle
      returned := s.returned ++ r.values.map fun v => (i, v) }
  | .ret .block => { s with client := Function.update s.client i (.blocked cmd ch) }
  | .call effect next =>
    { s with client := Function.update s.client i (.running cmd ch (.call effect next)) }

def State.step (s : State ι) : Act ι → Option (State ι)
  | .start i cmd =>
    match s.client i with
    | .idle => some (State.settle { s with calls := s.calls + 1 } i cmd s.calls (cmd.start s.calls))
    | _ => none
  | .act i t =>
    match s.client i with
    | .running cmd ch (.call effect next) =>
      some (State.settle { s with shared := effect t s.shared } i cmd ch (next t s.shared))
    | _ => none
  | .receive i =>
    match s.client i with
    | .blocked cmd ch =>
      match s.shared.buffer ch with
      | some result => some (State.settle
          { s with shared.buffer := Function.update s.shared.buffer ch none } i cmd ch
          (cmd.resume ch result))
      | none => none
    | _ => none
  | .timeout i =>
    match s.client i with
    | .blocked cmd ch => some (s.settle i cmd ch (cmd.expire ch))
    | _ => none

def State.init (db : Db) : State ι := ⟨{ db }, fun _ => .idle, 0, []⟩

/-- No client is in the middle of a call; some may wait. -/
def State.Quiescent (s : State ι) : Prop := ∀ i, (s.client i).isRunning = false

instance [Fintype ι] (s : State ι) : Decidable s.Quiescent :=
  inferInstanceAs (Decidable (∀ i, (s.client i).isRunning = false))

end System

/-! ## Conditions on steps -/

namespace Cmd

/-- The list that the call pushes to, and the nodes that it makes there. -/
def newNodes (t : Input) : Cmd → Bytes × List Node
  | push _ key values | pushX _ key values => (key, withIDs t.ids values)
  | rPopLPush _ destination | lMove _ destination _ _ | bRPopLPush _ destination
  | bLMove _ destination _ _ => (destination, [(t.ids 0, [])])
  | _ => ([], [])

def values : Cmd → List Bytes
  | push _ _ values | pushX _ _ values => values
  | _ => []

/-- The keys that a reply can name. -/
def namedKeys : Cmd → List Bytes
  | lMPop _ keys _ | bPop _ keys | bLMPop _ keys _ => keys
  | _ => []

/-- `BLMOVE` and `BRPOPLPUSH`, which try again when a result comes. -/
def retries : Cmd → Bool
  | bRPopLPush _ _ | bLMove _ _ _ _ => true
  | _ => false

end Cmd

section Conditions

variable {ι : Type} [DecidableEq ι]

/-- `uuid.New` makes names for nodes that were not there before; fewer than 2⁶³ values are pushed in
all. -/
def Supplied (s : State ι) : Act ι → Prop
  | .act i t =>
    match s.client i with
    | .running cmd _ _ => Fresh s.shared.db (cmd.newNodes t).1 (cmd.newNodes t).2 ∧
        s.shared.pushed.length + (cmd.newNodes t).2.length < 2 ^ 63
    | _ => True
  | _ => True

/-- No empty value is pushed, no key that a reply can name is empty, and no blocked `BLPOP`, `BRPOP` or
`BLMPOP` takes a result from its channel. -/
def Deliverable (s : State ι) : Act ι → Prop
  | .start _ cmd => [] ∉ cmd.values ∧ [] ∉ cmd.namedKeys
  | .receive i =>
    match s.client i with
    | .blocked cmd _ => cmd.retries = true
    | _ => True
  | _ => True

instance (s : State ι) (a : Act ι) : Decidable (Supplied s a) := by
  unfold Supplied
  split
  · split <;> infer_instance
  · infer_instance

instance (s : State ι) (a : Act ι) : Decidable (Deliverable s a) := by
  unfold Deliverable
  split
  · infer_instance
  · split <;> infer_instance
  · infer_instance

end Conditions

/-! ## What a call owes -/

/-- What holds of the store and of a call's input whenever it acts; `K` are keys that the call knows to
be lists. -/
structure Ready (cmd : Cmd) (t : Input) (db : Db) (K : List Bytes) (stored : Multiset (Bytes × Bytes)) :
    Prop where
  holding : Holding db stored
  noneEmpty : NoneEmpty stored
  known : ∀ k ∈ K, IsList db k
  fresh : Fresh db (cmd.newNodes t).1 (cmd.newNodes t).2
  room : stored.card + (cmd.newNodes t).2.length < 2 ^ 63

/-- An action from one store to another: what the lists held and what was pushed is what they hold then
and what was taken. -/
structure Accounts (s s' : Shared) (stored stored' : Multiset (Bytes × Bytes)) (taken : Multiset Bytes) :
    Prop where
  holding : Holding s'.db stored'
  noneEmpty : NoneEmpty stored'
  grows : Grows s.db s'.db
  balance : ∃ added, s'.pushed = s.pushed ++ added ∧
    stored.map Prod.snd + (added : Multiset Bytes) = stored'.map Prod.snd + taken

/-- The rest of a call will return exactly what it has taken and not returned yet. -/
def Safe (cmd : Cmd) : Program → List Bytes → Multiset Bytes → Prop
  | .ret (.reply r), _, owed => (r.values : Multiset Bytes) = owed
  | .ret .block, _, owed => owed = 0
  | .call effect next, K, owed => ∀ t s stored, Ready cmd t s.db K stored →
      ∃ stored' taken K', Accounts s (effect t s) stored stored' taken ∧
        (∀ k ∈ K', IsList (effect t s).db k) ∧ Safe cmd (next t s) K' (owed + taken)

section Safe

variable {cmd : Cmd} {K : List Bytes} {owed : Multiset Bytes}

theorem safe_finish {r : Reply} (h : (r.values : Multiset Bytes) = owed) : Safe cmd (finish r) K owed := h

variable {attempt : (Except Err Bytes → Program) → Program} {fromLeft : Bool}
  {key destination : Bytes} {keys values : List Bytes} {k : Program}

/-- A turn with the lock on the channels takes nothing. -/
theorem safe_locked {f : Shared → Shared} (hdb : ∀ s, (f s).db = s.db)
    (hpushed : ∀ s, (f s).pushed = s.pushed) (h : Safe cmd k K owed) :
    Safe cmd (locked f k) K owed := by
  intro t s stored hready
  refine ⟨stored, 0, K, ⟨?_, hready.noneEmpty, ?_, [], ?_, rfl⟩, ?_, ?_⟩
  · show Holding (f s).db stored
    rw [hdb]
    exact hready.holding
  · show Grows s.db (f s).db
    rw [hdb]
    exact fun _ hk => hk
  · rw [append_nil]
    exact hpushed s
  · show ∀ k ∈ K, IsList (f s).db k
    rw [hdb]
    exact hready.known
  · simpa using h

theorem safe_notify {value : Bytes} (h : Safe cmd k K owed) :
    Safe cmd (locked (.notifyBlockingPop key value) k) K owed := by
  refine safe_locked (fun s => ?_) (fun s => ?_) h
  all_goals
    unfold Shared.notifyBlockingPop
    split
    · rfl
    · split <;> rfl

theorem safe_register {ch : Chan} (h : Safe cmd k K owed) :
    Safe cmd (locked (.registerBlockingPop keys ch) k) K owed :=
  safe_locked (fun _ => rfl) (fun _ => rfl) h

theorem safe_unregister {ch : Chan} (h : Safe cmd k K owed) :
    Safe cmd (locked (.unregisterBlockingPop ch keys) k) K owed :=
  safe_locked (fun _ => rfl) (fun _ => rfl) h

/-- A view takes nothing. -/
theorem safe_check {k : Except Err Unit → Program} (hok : Safe cmd (k (.ok ())) K owed)
    (herror : key ∉ K → ∀ e, Safe cmd (k (.error e)) K owed) :
    Safe cmd (transact (fun t => view t.now (checkKeyType key .list)) (fun _ => []) k) K owed := by
  intro t s stored hready
  refine ⟨stored, 0, K, ⟨hready.holding, hready.noneEmpty, fun _ hk => hk, [], rfl, rfl⟩,
    hready.known, ?_⟩
  rw [Multiset.add_zero]
  show Safe cmd (k (checkKeyType key .list (visible (unix t.now) s.db))) K owed
  rw [checkKeyType_apply]
  split
  · exact hok
  · next hfail =>
    refine herror (fun hkey => hfail fun e he => ?_) _
    cases ((hready.known key hkey).visible (unix t.now)).symm.trans he
    rfl

theorem Ready.visible {t : Input} {db : Db} {stored : Multiset (Bytes × Bytes)}
    (h : Ready cmd t db K stored) (now : Nat) : Ready cmd t (KeyValue.visible now db) K stored :=
  ⟨h.holding.visible now, h.noneEmpty, fun k hk => (h.known k hk).visible now, h.fresh.visible now, h.room⟩

/-- A transaction that fails takes nothing; one that commits has to account for what it takes. -/
theorem safe_update {α : Type} {m : Input → Txn Err α} {added : Except Err α → List Bytes}
    {k : Except Err α → Program} (hadded : ∀ e, added (.error e) = [])
    (herror : ∀ t db stored e, Ready cmd t db K stored → m t db = .error e →
      Safe cmd (k (.error e)) K owed)
    (hok : ∀ t db stored a db', Ready cmd t db K stored → m t db = .ok (a, db') →
      ∃ stored' taken K', Holding db' stored' ∧ NoneEmpty stored' ∧ Grows db db' ∧
        stored.map Prod.snd + (added (.ok a) : Multiset Bytes) = stored'.map Prod.snd + taken ∧
        (∀ k ∈ K', IsList db' k) ∧ Safe cmd (k (.ok a)) K' (owed + taken)) :
    Safe cmd (transact (fun t => update t.now (m t)) added k) K owed := by
  intro t s stored hready
  have hvisible := hready.visible (unix t.now)
  cases hm : m t (visible (unix t.now) s.db) with
  | error e =>
    have hrun : update t.now (m t) s.db = (.error e, s.db) := Run.update_of_error hm
    refine ⟨stored, 0, K, ⟨?_, hready.noneEmpty, ?_, [], ?_, rfl⟩, ?_, ?_⟩
    · show Holding (update t.now (m t) s.db).2 stored
      rw [hrun]
      exact hready.holding
    · show Grows s.db (update t.now (m t) s.db).2
      rw [hrun]
      exact fun _ hk => hk
    · show s.pushed ++ added (update t.now (m t) s.db).1 = _
      rw [hrun, hadded]
    · show ∀ k ∈ K, IsList (update t.now (m t) s.db).2 k
      rw [hrun]
      exact hready.known
    · show Safe cmd (k (update t.now (m t) s.db).1) K (owed + 0)
      rw [hrun, Multiset.add_zero]
      exact herror t _ stored e hvisible hm
  | ok r =>
    obtain ⟨a, db'⟩ := r
    have hrun : update t.now (m t) s.db = (.ok a, db') := Run.update_eq_ok.mpr hm
    obtain ⟨stored', taken, K', hholding, hne, hgrows, hbalance, hknown, hsafe⟩ :=
      hok t _ stored a db' hvisible hm
    refine ⟨stored', taken, K', ⟨?_, hne, ?_, added (.ok a), ?_, hbalance⟩, ?_, ?_⟩
    · show Holding (update t.now (m t) s.db).2 stored'
      rw [hrun]
      exact hholding
    · show Grows s.db (update t.now (m t) s.db).2
      rw [hrun]
      exact fun k hk => hgrows k (hk.visible _)
    · show s.pushed ++ added (update t.now (m t) s.db).1 = _
      rw [hrun]
    · show ∀ k ∈ K', IsList (update t.now (m t) s.db).2 k
      rw [hrun]
      exact hknown
    · show Safe cmd (k (update t.now (m t) s.db).1) K' (owed + taken)
      rw [hrun]
      exact hsafe

theorem safe_pop {k : Except Err Bytes → Program}
    (hsome : ∀ v, v ≠ [] → Safe cmd (k (.ok v)) (key :: K) (owed + {v}))
    (hnone : Safe cmd (k (.ok [])) K owed) (herror : key ∉ K → ∀ e, Safe cmd (k (.error e)) K owed) :
    Safe cmd (pop fromLeft key k) K owed := by
  refine safe_check (safe_update (fun _ => rfl) ?_ ?_) herror
  · intro t db stored e hready hrun
    rcases hready.holding.popNode (deletes_removeNode key) fromLeft with ⟨-, hpop⟩ | ⟨v, rest, db', -, hpop, -⟩
    all_goals cases hpop.symm.trans hrun
  · intro t db stored a db' hready hrun
    rcases hready.holding.popNode (deletes_removeNode key) fromLeft with
      ⟨-, hpop⟩ | ⟨v, rest, db₁, hstored, hpop, hrest, honly, hlist, -⟩
    · cases hpop.symm.trans hrun
      exact ⟨stored, 0, K, hready.holding, hready.noneEmpty, fun _ hk => hk, rfl, hready.known,
        by simpa using hnone⟩
    · cases hpop.symm.trans hrun
      subst hstored
      have hne : a ≠ [] := hready.noneEmpty (key, a) (Multiset.mem_cons_self _ _)
      refine ⟨rest, {a}, key :: K, hrest, fun x hx => hready.noneEmpty x (Multiset.mem_cons_of_mem hx),
        honly.grows, ?_, ?_, hsome a hne⟩
      · simp [Multiset.add_comm]
      · intro k hk
        rcases mem_cons.mp hk with rfl | hk
        · exact honly.grows k hlist
        · exact honly.grows k (hready.known k hk)

theorem noneEmpty_push {stored : Multiset (Bytes × Bytes)} (hvalues : [] ∉ values)
    (h : NoneEmpty stored) : NoneEmpty (keyed key values + stored) := by
  intro x hx
  rcases Multiset.mem_add.mp hx with hx | hx
  · obtain ⟨v, hv, rfl⟩ := Multiset.mem_map.mp hx
    exact fun hnil => hvalues (hnil ▸ hv)
  · exact h x hx

theorem balance_push (key : Bytes) (values : List Bytes) (stored : Multiset (Bytes × Bytes)) :
    stored.map Prod.snd + (values : Multiset Bytes) = (keyed key values + stored).map Prod.snd + 0 := by
  rw [Multiset.map_add, map_snd_keyed, Multiset.add_zero, Multiset.add_comm]

theorem safe_push (toLeft : Bool) (key : Bytes) (hvalues : [] ∉ values) :
    Safe (.push toLeft key values) (push toLeft key values) K 0 := by
  -- whatever the transaction returns, the reply carries no value
  have hreply : ∀ r, Safe (.push toLeft key values) (announce key values r) K 0 := by
    intro r
    cases values with
    | nil => exact safe_finish rfl
    | cons v vs => cases r <;> exact safe_notify (safe_finish rfl)
  refine safe_update (fun _ => rfl) (fun t db stored e hready _ => hreply _) ?_
  intro t db stored n db' hready hrun
  have hfresh : Fresh db key (withIDs t.ids values) := hready.fresh
  obtain ⟨hholding, hgrows⟩ := hready.holding.pushTxn hfresh hready.room hrun
  rw [map_snd_withIDs] at hholding
  refine ⟨_, 0, K, hholding, noneEmpty_push hvalues hready.noneEmpty, hgrows, balance_push key values stored,
    fun k hk => hgrows k (hready.known k hk), hreply _⟩

theorem safe_pushX (toLeft : Bool) (key : Bytes) (hvalues : [] ∉ values) :
    Safe (.pushX toLeft key values) (pushX toLeft key values) K 0 := by
  refine safe_update (fun _ => rfl) (fun t db stored e hready _ => safe_finish rfl) ?_
  intro t db stored n db' hready hrun
  have hfresh : Fresh db key (withIDs t.ids values) := hready.fresh
  obtain ⟨hholding, hgrows⟩ := hready.holding.pushXTxn hfresh hready.room hrun
  rw [map_snd_withIDs] at hholding
  refine ⟨_, 0, K, hholding, noneEmpty_push ?_ hready.noneEmpty, hgrows, balance_push key _ stored,
    fun k hk => hgrows k (hready.known k hk), ?_⟩
  · split
    · exact not_mem_nil
    · exact hvalues
  · show Safe _ (match if toLeft then values.head? else values.getLast? with
      | none => finish (.length n)
      | some v => if n = 0 then finish (.length n)
          else locked (.notifyBlockingPop key v) (finish (.length n))) K 0
    split
    · exact safe_finish rfl
    · split
      · exact safe_finish rfl
      · exact safe_notify (safe_finish rfl)

theorem movedValues_ok {v : Bytes} (h : v ≠ []) : movedValues (.ok v) = [v] := by
  cases v with
  | nil => exact absurd rfl h
  | cons b v => rfl

/-- What a program that moves a value and goes on with `k` keeps to. -/
def Moving (cmd : Cmd) (attempt : (Except Err Bytes → Program) → Program) : Prop :=
  ∀ k K owed, (∀ r, movedValues r = [] → Safe cmd (k r) K owed) →
    (∀ v, v ≠ [] → Safe cmd (k (.ok v)) K (owed + {v})) → Safe cmd (attempt k) K owed

/-- A transaction that moves a value takes it and pushes it. -/
theorem safe_move (source : Bytes) (d toLeft : Bool) {m : Input → Txn Err Bytes}
    {k : Except Err Bytes → Program}
    (hnew : ∀ t, cmd.newNodes t = (destination, [(t.ids 0, [])]))
    (hm : ∀ t db v db', m t db = .ok (v, db') →
      (listPopInTxn d source >>= pushPopped toLeft destination (t.ids 0)) db = .ok (v, db'))
    (hnone : ∀ r, movedValues r = [] → Safe cmd (k r) K owed)
    (hsome : ∀ v, v ≠ [] → Safe cmd (k (.ok v)) K (owed + {v})) :
    Safe cmd (transact (fun t => update t.now (m t)) movedValues k) K owed := by
  refine safe_update (fun _ => rfl) (fun t db stored e hready _ => hnone _ rfl) ?_
  intro t db stored v db' hready hrun
  have hfresh := hready.fresh
  have hroom := hready.room
  rw [hnew] at hfresh hroom
  obtain ⟨hmoved, hgrows⟩ := hready.holding.move hready.noneEmpty hfresh (by
    omega) (hm t db v db' hrun)
  have hknown : ∀ k ∈ K, IsList db' k := fun k hk => hgrows k (hready.known k hk)
  rcases hmoved with ⟨rfl, hholding⟩ | ⟨hv, rest, rfl, hholding⟩
  · exact ⟨stored, 0, K, hholding, hready.noneEmpty, hgrows, rfl, hknown, by simpa using hnone _ rfl⟩
  · refine ⟨_, {v}, K, hholding, ?_, hgrows, ?_, hknown, hsome v hv⟩
    · intro x hx
      rcases Multiset.mem_cons.mp hx with rfl | hx
      · exact hv
      · exact hready.noneEmpty x (Multiset.mem_cons_of_mem hx)
    · rw [movedValues_ok hv, Multiset.map_cons, Multiset.map_cons]
      rfl

theorem moving_rPopLPush {source : Bytes}
    (hnew : ∀ t, cmd.newNodes t = (destination, [(t.ids 0, [])])) :
    Moving cmd (rPopLPush source destination) :=
  fun _ _ _ hnone hsome => safe_move source false true hnew (fun _ _ _ _ hrun => hrun) hnone hsome

theorem moving_lMove {source : Bytes} {toLeft : Bool}
    (hnew : ∀ t, cmd.newNodes t = (destination, [(t.ids 0, [])])) :
    Moving cmd (lMove source destination fromLeft toLeft) := by
  intro k K owed hnone hsome
  refine safe_move source fromLeft toLeft hnew (fun t db v db' hrun => ?_) (fun r hr => ?_) fun v hv => ?_
  · obtain ⟨-, -, hrest⟩ := Txn.lift_bind_eq_ok.mp hrun
    exact hrest
  · rw [hr]
    exact hnone r hr
  · rw [movedValues_ok hv]
    exact safe_notify (hsome v hv)

/-! ## Every call returns what it takes -/

theorem values_keyReply (hkey : key ≠ []) (values : List Bytes) :
    (keyReply key values).values = values := by
  rw [keyReply, if_neg hkey]
  rfl

theorem safe_lMPop (fromLeft : Bool) (count : Int64) (hkeys : [] ∉ keys) :
    Safe cmd (lMPop fromLeft count keys) K 0 := by
  induction keys generalizing K with
  | nil => exact safe_finish rfl
  | cons key keys ih =>
    rw [mem_cons, not_or] at hkeys
    refine safe_check (safe_update (fun _ => rfl) (fun t db stored e hready _ => safe_finish rfl) ?_)
      fun _ _ => safe_finish rfl
    intro t db stored vs db' hready hrun
    obtain ⟨rest, rfl, hrest, honly⟩ := hready.holding.lMPopTxn hrun
    refine ⟨rest, vs, K, hrest, fun x hx => hready.noneEmpty x (Multiset.mem_add.mpr (.inr hx)), honly.grows,
      ?_, fun k hk => honly.grows k (hready.known k hk), ?_⟩
    · rw [Multiset.map_add, map_snd_keyed, Multiset.add_comm (vs : Multiset Bytes)]
      exact Multiset.add_zero _
    · rw [Multiset.zero_add]
      cases vs with
      | nil => exact ih hkeys.2
      | cons v vs => exact safe_finish (congrArg _ (values_keyReply (Ne.symm hkeys.1) _))

theorem safe_popFirst {found : Bytes → Bytes → Program} {none : Program}
    (hfound : ∀ key ∈ keys, ∀ v K, Safe cmd (found key v) K {v}) (hnone : ∀ K, Safe cmd none K 0) :
    Safe cmd (popFirst fromLeft found none keys) K 0 := by
  induction keys generalizing K with
  | nil => exact hnone K
  | cons key keys ih =>
    have hrest : Safe cmd (popFirst fromLeft found none keys) K 0 :=
      ih fun k hk => hfound k (mem_cons_of_mem key hk)
    refine safe_pop (fun v hv => ?_) hrest fun _ _ => hrest
    cases v with
    | nil => exact absurd rfl hv
    | cons b v =>
      exact hfound key mem_cons_self _ _

theorem safe_registerAndRecheck (fromLeft : Bool) (ch : Chan) (hkeys : [] ∉ keys) :
    Safe cmd (registerAndRecheck fromLeft keys ch) K 0 := by
  refine safe_register (safe_popFirst (fun key hkey v K => ?_) fun K => rfl)
  have hne : key ≠ [] := fun h => hkeys (h ▸ hkey)
  exact safe_unregister (safe_finish (congrArg _ (values_keyReply hne [v])))

theorem safe_bPop (fromLeft : Bool) (ch : Chan) (hkeys : [] ∉ keys) :
    Safe cmd (bPop fromLeft keys ch) K 0 := by
  refine safe_popFirst (fun key hkey v K => ?_) fun K => safe_registerAndRecheck fromLeft ch hkeys
  have hne : key ≠ [] := fun h => hkeys (h ▸ hkey)
  exact safe_finish (congrArg _ (values_keyReply hne [v]))

/-- Once a value has been popped, the key is known to be a list, and no later pop fails. -/
theorem safe_popMany {k : List Bytes → Program} (hk : ∀ vs K, Safe cmd (k vs) K vs) (n : Nat)
    (values : List Bytes) (hK : values ≠ [] → key ∈ K) :
    Safe cmd (popMany fromLeft key k n values) K values := by
  induction n generalizing K values with
  | zero => exact hk values K
  | succ n ih =>
    refine safe_pop (fun v hv => ?_) (hk values K) fun hkey e => ?_
    · cases v with
      | nil => exact absurd rfl hv
      | cons b v =>
        exact ih _ fun _ => mem_cons_self
    · have hnil : values = [] := by
        by_contra hne
        exact hkey (hK hne)
      subst hnil
      exact safe_finish rfl

theorem safe_popManyFirst {count : Nat} {none : Program} (hkeys : [] ∉ keys)
    (hnone : ∀ K, Safe cmd none K 0) : Safe cmd (popManyFirst fromLeft count none keys) K 0 := by
  induction keys generalizing K with
  | nil => exact hnone K
  | cons key keys ih =>
    rw [mem_cons, not_or] at hkeys
    refine safe_popMany (fun vs K => ?_) count [] fun hne => absurd rfl hne
    cases vs with
    | nil => exact ih hkeys.2
    | cons v vs => exact safe_finish (congrArg _ (values_keyReply (Ne.symm hkeys.1) _))

theorem safe_bLMPop (fromLeft : Bool) (count : Nat) (ch : Chan) (hkeys : [] ∉ keys) :
    Safe cmd (bLMPop fromLeft keys count ch) K 0 :=
  safe_popManyFirst hkeys fun _ => safe_registerAndRecheck fromLeft ch hkeys

theorem safe_bMoveAgain (h : Moving cmd attempt) (source : Bytes) (ch : Chan) :
    Safe cmd (bMoveAgain attempt source ch) K 0 := by
  refine h _ K 0 (fun r hr => ?_) fun v hv => ?_
  · rw [hr]
    exact safe_register rfl
  · rw [movedValues_ok hv]
    exact safe_finish (Multiset.zero_add _).symm

theorem safe_bMove (h : Moving cmd attempt) (source : Bytes) (ch : Chan) :
    Safe cmd (bMove attempt source ch) K 0 := by
  refine h _ K 0 (fun r hr => ?_) fun v hv => ?_
  · rw [hr]
    refine safe_register (h _ K 0 (fun r hr => ?_) fun v hv => ?_)
    · rw [hr]
      rfl
    · rw [movedValues_ok hv]
      exact safe_unregister (safe_finish (Multiset.zero_add _).symm)
  · rw [movedValues_ok hv]
    exact safe_finish (Multiset.zero_add _).symm

theorem safe_moveOnce (h : Moving cmd attempt) :
    Safe cmd (attempt fun r => finish (moveReply r)) K 0 := by
  refine h _ K 0 (fun r hr => safe_finish ?_) fun v hv => safe_finish ?_
  · cases r with
    | error e => rfl
    | ok v =>
      cases v with
      | nil => rfl
      | cons b v => cases hr
  · rw [Multiset.zero_add]
    cases v with
    | nil => exact absurd rfl hv
    | cons b v => rfl

/-- **From its start.** -/
theorem Cmd.safe_start (cmd : Cmd) (ch : Chan) (hvalues : [] ∉ cmd.values) (hkeys : [] ∉ cmd.namedKeys) :
    Safe cmd (cmd.start ch) [] 0 := by
  cases cmd with
  | push toLeft key values => exact safe_push toLeft key hvalues
  | pushX toLeft key values => exact safe_pushX toLeft key hvalues
  | pop fromLeft key =>
    rw [start]
    refine safe_pop (fun v hv => ?_) ?_ fun _ e => ?_
    · rw [Multiset.zero_add]
      cases v with
      | nil => exact absurd rfl hv
      | cons b v => exact safe_finish rfl
    · exact safe_finish (r := .nil) rfl
    · show Safe _ (finish (if e = .wrongType then .error e else .nil)) [] 0
      split <;> exact safe_finish rfl
  | lMPop fromLeft keys count => exact safe_lMPop fromLeft count hkeys
  | rPopLPush source destination => exact safe_moveOnce (moving_rPopLPush fun _ => rfl)
  | lMove source destination fromLeft toLeft => exact safe_moveOnce (moving_lMove fun _ => rfl)
  | bPop fromLeft keys => exact safe_bPop fromLeft ch hkeys
  | bLMPop fromLeft keys count => exact safe_bLMPop fromLeft count ch hkeys
  | bRPopLPush source destination => exact safe_bMove (moving_rPopLPush fun _ => rfl) source ch
  | bLMove source destination fromLeft toLeft => exact safe_bMove (moving_lMove fun _ => rfl) source ch

theorem Cmd.safe_resume (cmd : Cmd) (ch : Chan) (result : Bytes × Bytes) (h : cmd.retries = true) :
    Safe cmd (cmd.resume ch result) [] 0 := by
  cases cmd with
  | bRPopLPush source destination => exact safe_bMoveAgain (moving_rPopLPush fun _ => rfl) source ch
  | bLMove source destination fromLeft toLeft =>
    exact safe_bMoveAgain (moving_lMove fun _ => rfl) source ch
  | _ => cases h

theorem Cmd.safe_expire (cmd : Cmd) (ch : Chan) : Safe cmd (cmd.expire ch) [] 0 :=
  safe_unregister (safe_finish rfl)

end Safe

/-! ## Runs -/

section Runs

variable {ι : Type} [DecidableEq ι]

/-- A client that has taken these values and not returned them. -/
def Client.Owes (db : Db) (owed : Multiset Bytes) : Client → Prop
  | .running cmd _ p => ∃ K, (∀ k ∈ K, IsList db k) ∧ Safe cmd p K owed
  | _ => owed = 0

/-- Every value that was pushed is in a list, with a client that will return it, or returned. -/
def Inv (s : State ι) : Prop :=
  ∃ (stored : Multiset (Bytes × Bytes)) (flight : Multiset (ι × Bytes)),
    Holding s.shared.db stored ∧ NoneEmpty stored ∧
    (s.shared.pushed : Multiset Bytes) =
      stored.map Prod.snd + flight.map Prod.snd + (s.returned.map Prod.snd : List Bytes) ∧
    ∀ i, (s.client i).Owes s.shared.db (valuesAt i flight)

theorem Client.Owes.grows {db db' : Db} {owed : Multiset Bytes} {c : Client} (h : c.Owes db owed)
    (hgrows : Grows db db') : c.Owes db' owed := by
  cases c with
  | running cmd ch p =>
    obtain ⟨K, hK, hsafe⟩ := h
    exact ⟨K, fun k hk => hgrows k (hK k hk), hsafe⟩
  | idle => exact h
  | blocked cmd ch => exact h

/-- What the other clients owe. -/
def others (i : ι) (flight : Multiset (ι × Bytes)) : Multiset (ι × Bytes) := flight.filter fun x => x.1 ≠ i

theorem others_add_keyed (i : ι) (flight : Multiset (ι × Bytes)) :
    others i flight + keyed i (valuesAt i flight) = flight := by
  have hkeyed : keyed i (valuesAt i flight) = flight.filter fun x => x.1 = i := by
    rw [keyed, valuesAt, Multiset.map_map]
    refine (Multiset.map_congr rfl fun x hx => ?_).trans (Multiset.map_id _)
    exact Prod.ext (Multiset.mem_filter.mp hx).2.symm rfl
  rw [hkeyed, Multiset.add_comm]
  exact Multiset.filter_add_not _ flight

theorem valuesAt_others (i : ι) (flight : Multiset (ι × Bytes)) : valuesAt i (others i flight) = 0 := by
  simp [valuesAt, others, Multiset.filter_filter]

theorem valuesAt_others_of_ne {i j : ι} (h : j ≠ i) (flight : Multiset (ι × Bytes)) :
    valuesAt j (others i flight) = valuesAt j flight := by
  conv_rhs => rw [← others_add_keyed i flight]
  rw [valuesAt_add, valuesAt_keyed_of_ne h, Multiset.add_zero]

variable {ch : Chan} {cmd : Cmd} {s : State ι}

/-- A client goes on with the rest of its call. -/
theorem inv_settle {i : ι} {p : Program} {K : List Bytes}
    {owed : Multiset Bytes} {stored : Multiset (Bytes × Bytes)} {flight : Multiset (ι × Bytes)}
    (hholding : Holding s.shared.db stored) (hne : NoneEmpty stored)
    (hbalance : (s.shared.pushed : Multiset Bytes) = stored.map Prod.snd +
      ((others i flight).map Prod.snd + owed) + (s.returned.map Prod.snd : List Bytes))
    (hothers : ∀ j, j ≠ i → (s.client j).Owes s.shared.db (valuesAt j flight))
    (hK : ∀ k ∈ K, IsList s.shared.db k) (hsafe : Safe cmd p K owed) :
    Inv (s.settle i cmd ch p) := by
  have hrest : ∀ (c : Client) j, j ≠ i →
      (Function.update s.client i c j).Owes s.shared.db (valuesAt j (others i flight)) := by
    intro c j hj
    rw [update_of_ne hj, valuesAt_others_of_ne hj]
    exact hothers j hj
  have hself : ∀ (c : Client), c.Owes s.shared.db 0 → ∀ j,
      (Function.update s.client i c j).Owes s.shared.db (valuesAt j (others i flight)) := by
    intro c hc j
    by_cases hj : j = i
    · subst hj
      rw [update_self, valuesAt_others]
      exact hc
    · exact hrest c j hj
  cases p with
  | ret o =>
    cases o with
    | reply r =>
      refine ⟨stored, others i flight, hholding, hne, ?_, hself .idle rfl⟩
      have howed : (r.values : Multiset Bytes) = owed := hsafe
      have hreturned : ((s.returned ++ r.values.map fun v => (i, v)).map Prod.snd : List Bytes) =
          s.returned.map Prod.snd ++ r.values := by simp
      show (s.shared.pushed : Multiset Bytes) = _ + _ +
        ((s.returned ++ r.values.map fun v => (i, v)).map Prod.snd : List Bytes)
      rw [hbalance, hreturned, ← Multiset.coe_add, howed]
      ac_rfl
    | block =>
      refine ⟨stored, others i flight, hholding, hne, ?_, hself (.blocked cmd ch) rfl⟩
      have howed : owed = 0 := hsafe
      rw [howed, Multiset.add_zero] at hbalance
      exact hbalance
  | call effect next =>
    refine ⟨stored, others i flight + keyed i owed, hholding, hne, ?_, fun j => ?_⟩
    · rw [Multiset.map_add, map_snd_keyed]
      exact hbalance
    · by_cases hj : j = i
      · subst hj
        show (Function.update s.client j (.running cmd ch (.call effect next)) j).Owes s.shared.db _
        rw [update_self, valuesAt_add, valuesAt_others, valuesAt_keyed_self, Multiset.zero_add]
        exact ⟨K, hK, hsafe⟩
      · rw [valuesAt_add, valuesAt_keyed_of_ne hj, Multiset.add_zero]
        exact hrest _ j hj

theorem inv_init {db : Db} (h : Holding db 0) : Inv (State.init db : State ι) :=
  ⟨0, 0, h, fun x hx => absurd hx (Multiset.notMem_zero x), rfl, fun _ => rfl⟩

/-- A client that owes nothing starts a program. -/
theorem inv_enter (h : Inv s) {i : ι} {p : Program}
    (hi : ∀ owed, (s.client i).Owes s.shared.db owed → owed = 0) (hsafe : Safe cmd p [] 0) :
    Inv (s.settle i cmd ch p) := by
  obtain ⟨stored, flight, hholding, hne, hbalance, howes⟩ := h
  refine inv_settle hholding hne ?_ (fun j _ => howes j) (fun k hk => absurd hk not_mem_nil) hsafe
  have hflight : (others i flight).map Prod.snd = flight.map Prod.snd := by
    conv_rhs => rw [← others_add_keyed i flight, hi _ (howes i)]
    rw [Multiset.map_add, map_snd_keyed, add_zero]
  rw [hflight, add_zero]
  exact hbalance

theorem inv_act (h : Inv s) {i : ι} {t : Input} {effect : Input → Shared → Shared}
    {next : Input → Shared → Program} (hi : s.client i = .running cmd ch (.call effect next))
    (hfresh : Fresh s.shared.db (cmd.newNodes t).1 (cmd.newNodes t).2)
    (hroom : s.shared.pushed.length + (cmd.newNodes t).2.length < 2 ^ 63) :
    Inv (State.settle { s with shared := effect t s.shared } i cmd ch (next t s.shared)) := by
  obtain ⟨stored, flight, hholding, hne, hbalance, howes⟩ := h
  have hself := howes i
  rw [hi] at hself
  obtain ⟨K, hK, hsafe⟩ := hself
  have hcard : stored.card ≤ s.shared.pushed.length := by
    have := congrArg Multiset.card hbalance
    simp only [Multiset.coe_card, Multiset.card_add, Multiset.card_map] at this
    omega
  obtain ⟨stored', taken, K', haccounts, hK', hnext⟩ :=
    hsafe t s.shared stored ⟨hholding, hne, hK, hfresh, by omega⟩
  obtain ⟨added, hpushed, hbalance'⟩ := haccounts.balance
  refine inv_settle haccounts.holding haccounts.noneEmpty ?_
    (fun j _ => (howes j).grows haccounts.grows) hK' hnext
  show ((effect t s.shared).pushed : Multiset Bytes) = _
  have hflight : flight.map Prod.snd = (others i flight).map Prod.snd + valuesAt i flight := by
    conv_lhs => rw [← others_add_keyed i flight]
    rw [Multiset.map_add, map_snd_keyed]
  calc ((effect t s.shared).pushed : Multiset Bytes)
      = (s.shared.pushed : Multiset Bytes) + added := by rw [hpushed, Multiset.coe_add]
    _ = stored.map Prod.snd + added + flight.map Prod.snd + (s.returned.map Prod.snd : List Bytes) := by
        rw [hbalance]
        ac_rfl
    _ = _ := by
        rw [hbalance', hflight]
        ac_rfl

/-- **One step.** -/
theorem inv_step {s' : State ι} {a : Act ι} (h : Inv s) (hok : Supplied s a ∧ Deliverable s a)
    (hstep : s.step a = some s') : Inv s' := by
  obtain ⟨hsupplied, hdeliverable⟩ := hok
  cases a with
  | start i cmd =>
    rw [State.step] at hstep
    split at hstep
    · next hi =>
      cases hstep
      refine inv_enter (s := { s with calls := s.calls + 1 }) h (fun owed howes => ?_)
        (cmd.safe_start _ hdeliverable.1 hdeliverable.2)
      rwa [hi] at howes
    · cases hstep
  | act i t =>
    rw [State.step] at hstep
    split at hstep
    · next cmd ch effect next hi =>
      cases hstep
      rw [Supplied, hi] at hsupplied
      exact inv_act h hi hsupplied.1 hsupplied.2
    · cases hstep
  | receive i =>
    rw [State.step] at hstep
    split at hstep
    · next cmd ch hi =>
      rw [Deliverable, hi] at hdeliverable
      split at hstep
      · next result _ =>
        cases hstep
        refine inv_enter (s := { s with shared.buffer := Function.update s.shared.buffer ch none }) h
          (fun owed howes => ?_) (cmd.safe_resume ch result hdeliverable)
        rwa [hi] at howes
      · cases hstep
    · cases hstep
  | timeout i =>
    rw [State.step] at hstep
    split at hstep
    · next cmd ch hi =>
      cases hstep
      refine inv_enter h (fun owed howes => ?_) (cmd.safe_expire ch)
      rwa [hi] at howes
    · cases hstep

end Runs

/-! ## Delivery -/

section Delivery

variable {ι : Type} [DecidableEq ι]

/-- A store without lists, in which no type expires. -/
structure Listless (db : Db) : Prop where
  absent : ∀ p, KeyType.list.tag <+: p → db[p]? = none
  types : ∀ {k : Bytes} {e : Entry}, db[typeOfKeyGet k]? = some e → e.expiresAt = 0

theorem Listless.holding {db : Db} (h : Listless db) : Holding db 0 := by
  refine ⟨fun k => ⟨[], ⟨nodes_nil, by simp, .inl ⟨rfl, h.absent _ ?_⟩⟩, rfl, fun hne => absurd rfl hne⟩,
    h.types⟩
  exact (prefix_append _ _).trans ((prefix_append _ _).trans (prefix_append _ _))

theorem listless_empty : Listless ∅ := ⟨fun _ _ => rfl, nofun⟩

/-- Every value that was pushed is in one place: in a list, where `LRANGE` shows it, or with the client
that it was returned to. -/
def Delivered (s : State ι) : Prop :=
  ∃ stored : Multiset (Bytes × Bytes), (∀ now k, valuesAt k stored = listAt now k s.shared.db) ∧
    (s.shared.pushed : Multiset Bytes) = stored.map Prod.snd + (s.returned.map Prod.snd : List Bytes)

theorem Inv.delivered {s : State ι} (h : Inv s) (hquiet : s.Quiescent) : Delivered s := by
  obtain ⟨stored, flight, hholding, -, hbalance, howes⟩ := h
  have hzero : flight = 0 := by
    refine eq_of_valuesAt_eq fun i => ?_
    have hi := howes i
    cases hc : s.client i with
    | running cmd ch p =>
      have := hquiet i
      rw [hc] at this
      cases this
    | idle =>
      rw [hc] at hi
      exact hi
    | blocked cmd ch =>
      rw [hc] at hi
      exact hi
  rw [hzero, Multiset.map_zero, add_zero] at hbalance
  exact ⟨stored, hholding.listAt, hbalance⟩

/-- A value that is handed over counts twice. -/
theorem not_delivered_of_handed {s s' : State ι} (h : Delivered s) {i : ι} {cmd : Cmd} {ch : Chan}
    {key v : Bytes} (hi : s.client i = .blocked cmd ch) (hcmd : cmd.retries = false) (hkey : key ≠ [])
    (hbuffer : s.shared.buffer ch = some (key, v)) (hstep : s.step (.receive i) = some s') :
    ¬ Delivered s' := by
  have hresume : cmd.resume ch (key, v) = finish (.popped key [v]) := by
    cases cmd with
    | bRPopLPush source destination => cases hcmd
    | bLMove source destination fromLeft toLeft => cases hcmd
    | _ => exact congrArg finish (if_neg hkey)
  rw [State.step, hi] at hstep
  simp only [hbuffer, hresume] at hstep
  cases hstep
  rintro ⟨stored', hlists', hbalance'⟩
  obtain ⟨stored, hlists, hbalance⟩ := h
  have hsame : stored' = stored := eq_of_valuesAt_eq fun k => (hlists' 0 k).trans (hlists 0 k).symm
  subst hsame
  change (s.shared.pushed : Multiset Bytes) =
    _ + ((s.returned ++ [(i, v)]).map Prod.snd : List Bytes) at hbalance'
  have hcard := congrArg Multiset.card (hbalance.symm.trans hbalance')
  simp at hcard

/-- **Every value that was pushed is in exactly one place whenever no call is under way.** -/
theorem blocking_delivery {db : Db} {acts : List (Act ι)} {s : State ι} (hdb : Listless db)
    (hok : Meets State.step (fun s a => Supplied s a ∧ Deliverable s a) (.init db) acts)
    (hrun : run State.step (.init db) acts = some s) (hquiet : s.Quiescent) : Delivered s :=
  (run_invariant (fun _ _ _ h ha hstep => inv_step h ha hstep) (inv_init hdb.holding) hok hrun).delivered
    hquiet

/-- The input of an action that makes at most one node. -/
def input (id : String) : Input := ⟨0, fun _ => ascii id⟩

/-- `BLMOVE a b LEFT RIGHT` waits, `LPUSH a v` wakes it up, and `LPOP b` gets the value. -/
def movedOn : List (Act Bool) :=
  [.start false (.bLMove "a" "b" true false), .act false (input "n1"),
    .act false (input "n2"), .act false (input "n3"), .start true (.push true "a" ["v"]),
    .act true (input "n4"), .act true (input "n5"), .receive false, .act false (input "n6"),
    .act false (input "n7"), .start true (.pop true "b"), .act true (input "n8"),
    .act true (input "n9")]

theorem blocking_delivery_moved : ∃ s : State Bool, run State.step (.init ∅) movedOn = some s ∧
    s.returned = [(false, ascii "v"), (true, ascii "v")] ∧ Delivered s := by
  obtain ⟨s, hrun, hend⟩ : ∃ s : State Bool, run State.step (.init ∅) movedOn = some s ∧
      (s.Quiescent ∧ s.returned = [(false, ascii "v"), (true, ascii "v")]) := run_end (by decide +kernel)
  exact ⟨s, hrun, hend.2, blocking_delivery listless_empty (by decide +kernel) hrun hend.1⟩

/-- `BLPOP a` waits, `LPUSH a v` hands it the value, and `LRANGE` still shows it. -/
def handedOver : List (Act Bool) :=
  [.start false (.bPop true ["a"]), .act false (input "n1"), .act false (input "n2"),
    .act false (input "n3"), .act false (input "n4"), .act false (input "n5"),
    .start true (.push true "a" ["v"]), .act true (input "n6"), .act true (input "n7"),
    .receive false]

theorem blpop_returns_and_keeps : ∃ s : State Bool, run State.step (.init ∅) handedOver = some s ∧
    (s.Quiescent ∧ s.shared.pushed = [ascii "v"] ∧ s.returned = [(false, ascii "v")] ∧
      listAt 0 (ascii "a") s.shared.db = [ascii "v"]) := run_end (by decide +kernel)

end Delivery

end BoltDB.Store.Blocking
