import BoltDB.Replication.FullResync
import BoltDB.Server.Handlers

/-!
# Connections

`processRequest` (`handler_core.go`), `executeCommand` (`handler_dispatch.go`), `handlePSyncWithRDB`
(`replication_handler.go`), `handleAUTH` and `handleHELLO` (`admin2_commands.go`): the way of a request
from its arrival to its reply. The handlers behind the dispatcher's switch are a parameter. Counters,
the slow log, the pause window and what monitors see are left out; none of them reaches the store, the
replicas or the cluster.

`auth_gate` is about a connection that has not authenticated. A `PSYNC` to a master is answered before
the check, with a copy of the store.
-/

namespace BoltDB.Server

open Bytes Transition List
open Replication (ReplStore Frame FeedError isWriteCommand)

/-! ## State -/

inductive Reply
  | one (r : Resp)
  | nested (elems : List Resp)
  | map (elems : List Resp)
  /-- `*-1` -/
  | nilArray
  deriving DecidableEq

/-- `TransactionCommand`. -/
structure QueuedCommand where
  command : Bytes
  args : List Bytes
  deriving DecidableEq

/-- `connState`, as far as the dispatcher uses it. -/
structure Conn where
  id : Int64
  authenticated : Bool := false
  inTransaction : Bool := false
  commands : List QueuedCommand := []
  respVersion : Nat := 0
  cancelled : Bool := false
  deriving DecidableEq

inductive Role
  | master | slave
  deriving DecidableEq

def Role.name : Role → Bytes
  | master => "master"
  | slave => "slave"

/-- `ReplicationManager`; of a replica's connection, the next timestamp to feed it. -/
structure Manager where
  role : Role
  replId : Bytes
  slaves : List Nat
  deriving DecidableEq

/-- A server: its data with the propagation log, its part in replication and in a cluster. -/
structure Node (σ κ : Type) where
  data : σ
  repl : ReplStore
  replication : Option Manager
  cluster : Option κ

variable {σ κ : Type}

/-- `h.Replication != nil && h.Replication.IsMaster()`. -/
def Node.isMaster (s : Node σ κ) : Bool := s.replication.any fun m => m.role = .master

/-- What the dispatcher is built on: the configured password, the handlers of the other commands, the
table behind `COMMAND` and the RDB writer. -/
structure Services (σ κ : Type) where
  password : Bytes
  version : Bytes
  command : List Bytes → Reply
  rdb : σ → Option Bytes
  dispatch : Bytes → List Bytes → Conn → Node σ κ → Reply × Conn × Node σ κ

/-! ## Feeding replicas -/

/-- `FeedSlave`: the frames from the cursor on, and the cursor after them. -/
def feedSlave (s : ReplStore) (since : Nat) : Except FeedError (List Frame × Nat) := do
  let frames ← s.feedEntriesFrom since
  return (frames, (frames.getLast?.map (·.ts + 1)).getD since)

/-- `PropagateCommand`: every replica is fed; the command itself is in the log already. -/
def propagateCommand (s : Node σ κ) : Node σ κ :=
  { s with
    replication := s.replication.map fun m =>
      { m with
        slaves := m.slaves.map fun since =>
          match feedSlave s.repl since with
          | .ok (_, next) => next
          | .error _ => since } }

/-! ## PSYNC -/

/-- What was written to a connection that a replica has taken over. -/
structure Sent where
  text : Bytes
  frames : List Frame
  deriving DecidableEq

inductive Output
  | reply (r : Reply)
  | takeover (sent : Sent)
  | closed (text : Bytes)
  deriving DecidableEq

def Output.err (text : String) : Output := .reply (.one (.err text))

/-- `strconv.ParseUint(s, 10, 64)` with its error ignored: the largest number if it is out of range. -/
def parseUint64 (s : Bytes) : Nat :=
  if s.isEmpty || !s.all isDigit then 0 else min (digitsValue 0 s) (2 ^ 64 - 1)

/-- `HandlePSync`: `true` for CONTINUE. -/
def handlePSync (m : Manager) (repl : ReplStore) (replId : Bytes) (ts : Nat) : Bool :=
  ts ≠ 0 && replId = m.replId && (repl.replLogStartTS ≤ ts && ts ≤ repl.replLogCurrentTS)

/-- `AddSlave` and `CatchUpAndEnableSlaveTS`, after the reply was written. -/
def enableSlave (s : Node σ κ) (m : Manager) (text : Bytes) (resumeTS : Nat) : Output × Node σ κ :=
  match feedSlave s.repl (resumeTS + 1) with
  | .ok (frames, next) =>
    (.takeover ⟨text, frames⟩, { s with replication := some { m with slaves := m.slaves ++ [next] } })
  | .error _ => (.closed text, s)

def crlf : Bytes := [13, 10]

def fullResyncText (replId : Bytes) (ts : Nat) (rdb : Bytes) : Bytes :=
  "+FULLRESYNC " ++ replId ++ " 0 " ++ decimal ts ++ crlf ++
    "$" ++ decimal rdb.length ++ crlf ++ rdb ++ crlf

def handlePSyncWithRDB (svc : Services σ κ) (m : Manager) (s : Node σ κ) :
    List Bytes → Output × Node σ κ
  | replId :: offset :: rest =>
    match parseInt64 offset with
    | none => (.err "ERR invalid offset", s)
    | some _ =>
      let ts := (rest.head?.map parseUint64).getD 0
      if handlePSync m s.repl replId ts then
        enableSlave s m ("+CONTINUE " ++ m.replId ++ crlf) ts
      else
        let snapshotTS := s.repl.replLogCurrentTS
        match svc.rdb s.data with
        | none => (.err "ERR failed to generate RDB", s)
        | some rdb => enableSlave s m (fullResyncText m.replId snapshotTS rdb) snapshotTS
  | _ => (.reply (.one (.wrongNumber "PSYNC")), s)

/-! ## Dispatch -/

def noAuth : Reply := .one (.err "NOAUTH Authentication required.")

/-- The commands that need no authentication. -/
def openCommands : List Bytes := ["AUTH", "PING", "QUIT", "COMMAND", "HELLO"].map ascii

/-- The commands that are not queued. -/
def unqueuedCommands : List Bytes :=
  ["MULTI", "EXEC", "DISCARD", "WATCH", "UNWATCH", "PING", "QUIT", "RESET"].map ascii

def handleAUTH (password : Bytes) (conn : Conn) (args : List Bytes) : Reply × Conn :=
  if password = [] ∨ args.headD [] = password then
    (.one .ok, { conn with authenticated := true })
  else (.one (.err "ERR invalid password"), conn)

/-- `HELLO`; an `AUTH` part is not looked at. -/
def handleHELLO (version : Bytes) (s : Node σ κ) (conn : Conn) (args : List Bytes) : Reply × Conn :=
  let level := match args with
    | [] => some 2
    | arg :: _ => (parseInt64 arg).filter fun n => 2 ≤ n && n ≤ 3
  match level with
  | none => (.one (.err "ERR Protocol version is not supported"), conn)
  | some level =>
    let role := (s.replication.map (·.role.name)).getD (ascii "master")
    let mode := if s.cluster.isSome then ascii "cluster" else ascii "standalone"
    let elements : List Resp :=
      [.bulk (ascii "server"), .bulk (ascii "boltdb"), .bulk (ascii "version"), .bulk version,
        .bulk (ascii "proto"), .integer level, .bulk (ascii "id"), .integer conn.id,
        .bulk (ascii "mode"), .bulk mode, .bulk (ascii "role"), .bulk role, .bulk (ascii "modules"),
        .array []]
    (if level = 3 then .map elements else .nested elements,
      { conn with respVersion := level.toInt.toNat })

def executeCommand (svc : Services σ κ) (conn : Conn) (s : Node σ κ) (cmd : Bytes)
    (args : List Bytes) : Reply × Conn × Node σ κ :=
  if svc.password ≠ [] ∧ conn.authenticated = false ∧ cmd ∉ openCommands then (noAuth, conn, s)
  else if conn.inTransaction = true ∧ cmd ∉ unqueuedCommands then
    (.one (.simple "QUEUED"), { conn with commands := conn.commands ++ [⟨cmd, args⟩] }, s)
  else if cmd = "PING" then (.one (.simple "PONG"), conn, s)
  else if cmd = "COMMAND" then (svc.command args, conn, s)
  else if cmd = "QUIT" then (.one .ok, { conn with cancelled := true }, s)
  else if cmd = "AUTH" then
    let r := handleAUTH svc.password conn args
    (r.1, r.2, s)
  else if cmd = "HELLO" then
    let r := handleHELLO svc.version s conn args
    (r.1, r.2, s)
  else svc.dispatch cmd args conn s

/-! ## Propagation -/

def shouldPropagateCommand (cmd : Bytes) : Bool :=
  cmd ∉ ["REPLICAOF", "PSYNC", "REPLCONF", "SPOP", "MIGRATE", "PUBLISH"].map ascii

def isErrorResponse : Reply → Bool
  | .one (.error _) | .one (.storeError _) => true
  | _ => false

def isPositiveIntegerResp (r : Reply) : Bool := r = .one (.integer 1)

/-- What `processRequest` asks before it feeds the replicas; `args` has the name of the command in
front. -/
def shouldProp (cmd : Bytes) (args : List Bytes) (resp : Reply) : Bool :=
  isWriteCommand cmd && shouldPropagateCommand cmd && !isErrorResponse resp &&
    (!(cmd ∈ ["EXPIRE", "PEXPIRE", "SETNX", "MSETNX", "HSETNX"].map ascii) ||
      isPositiveIntegerResp resp) &&
    (!(cmd = "SORT") || args.any fun a => toUpper a = "STORE") &&
    !(cmd = "SET" && (args.any fun a => toUpper a = "NX" || toUpper a = "XX") &&
      resp = .one .null)

/-- `processRequest`. -/
def processRequest (svc : Services σ κ) (conn : Conn) (s : Node σ κ) :
    List Bytes → Output × Conn × Node σ κ
  | [] => (.err "ERR no command", conn, s)
  | name :: args =>
    let cmd := toUpper name
    match s.replication.filter fun m => cmd = "PSYNC" ∧ m.role = .master with
    | some m =>
      let r := handlePSyncWithRDB svc m s args
      (r.1, conn, r.2)
    | none =>
      let r := executeCommand svc conn s cmd args
      (.reply r.1, r.2.1,
        if r.2.2.isMaster && shouldProp cmd (name :: args) r.1 then propagateCommand r.2.2 else r.2.2)

/-! ## A connection that has not authenticated -/

/-- The request that authenticates. -/
def Authenticates (password : Bytes) (args : List Bytes) : Prop :=
  toUpper (args.headD []) = "AUTH" ∧ args.tail.headD [] = password

/-- The request that is answered before the check. -/
def AsksSync (s : Node σ κ) (args : List Bytes) : Prop :=
  s.isMaster = true ∧ toUpper (args.headD []) = "PSYNC"

instance (password : Bytes) (args : List Bytes) : Decidable (Authenticates password args) :=
  inferInstanceAs (Decidable (_ ∧ _))

instance (s : Node σ κ) (args : List Bytes) : Decidable (AsksSync s args) :=
  inferInstanceAs (Decidable (_ ∧ _))

/-- The nodes differ in their data only. -/
def SameOutside (s s' : Node σ κ) : Prop := s.replication = s'.replication ∧ s.cluster = s'.cluster

/-- Not authenticated, hence not in a transaction. -/
def Conn.Locked (conn : Conn) : Prop := conn.authenticated = false ∧ conn.inTransaction = false

section Gate

variable {svc : Services σ κ} {conn : Conn} {s s' : Node σ κ} {cmd : Bytes} {args : List Bytes}

theorem handleHELLO_congr (h : SameOutside s s') (version : Bytes) (conn : Conn) (args : List Bytes) :
    handleHELLO version s conn args = handleHELLO version s' conn args := by
  unfold handleHELLO
  rw [h.1, h.2]

theorem handleHELLO_locked (h : conn.Locked) (version : Bytes) (s : Node σ κ) (args : List Bytes) :
    (handleHELLO version s conn args).2.Locked := by
  unfold handleHELLO
  dsimp only
  split
  · exact h
  · exact h

theorem handleAUTH_wrong {password : Bytes} (hpw : password ≠ []) (hwrong : args.headD [] ≠ password) :
    handleAUTH password conn args = (.one (.err "ERR invalid password"), conn) := by
  rw [handleAUTH, if_neg]
  rintro (h | h)
  · exact hpw h
  · exact hwrong h

/-- Everything but the open commands is refused. -/
theorem executeCommand_refused (hpw : svc.password ≠ []) (hconn : conn.Locked)
    (hcmd : cmd ∉ openCommands) : executeCommand svc conn s cmd args = (noAuth, conn, s) := by
  rw [executeCommand, if_pos ⟨hpw, hconn.1, hcmd⟩]

/-- What an open command does: the reply and the connection after it do not depend on the data, and the
node stays as it is. -/
theorem executeCommand_open (hpw : svc.password ≠ []) (hconn : conn.Locked)
    (hcmd : cmd ∈ openCommands) (hauth : cmd = "AUTH" → args.headD [] ≠ svc.password) :
    ∃ reply conn', conn'.Locked ∧
      ∀ s', SameOutside s s' → executeCommand svc conn s' cmd args = (reply, conn', s') := by
  have hfree : ∀ s', executeCommand svc conn s' cmd args =
      if cmd = "PING" then (.one (.simple "PONG"), conn, s')
      else if cmd = "COMMAND" then (svc.command args, conn, s')
      else if cmd = "QUIT" then (.one .ok, { conn with cancelled := true }, s')
      else if cmd = "AUTH" then
        ((handleAUTH svc.password conn args).1, (handleAUTH svc.password conn args).2, s')
      else if cmd = "HELLO" then
        ((handleHELLO svc.version s' conn args).1, (handleHELLO svc.version s' conn args).2, s')
      else svc.dispatch cmd args conn s' := by
    intro s'
    rw [executeCommand, if_neg fun h => h.2.2 hcmd, if_neg fun h => by simp [hconn.2] at h]
  have hname : cmd = "AUTH" ∨ cmd = "PING" ∨ cmd = "QUIT" ∨ cmd = "COMMAND" ∨
      cmd = "HELLO" := by simpa [openCommands] using hcmd
  rcases hname with rfl | rfl | rfl | rfl | rfl
  · refine ⟨.one (.err "ERR invalid password"), conn, hconn, fun s' _ => ?_⟩
    rw [hfree, handleAUTH_wrong hpw (hauth rfl)]
    rfl
  · exact ⟨_, _, hconn, fun s' _ => hfree s'⟩
  · exact ⟨_, { conn with cancelled := true }, hconn, fun s' _ => hfree s'⟩
  · exact ⟨_, _, hconn, fun s' _ => hfree s'⟩
  · refine ⟨(handleHELLO svc.version s conn args).1, _, handleHELLO_locked hconn svc.version s args,
      fun s' h => ?_⟩
    rw [hfree, ← handleHELLO_congr h]
    rfl

theorem not_isWriteCommand_open (h : cmd ∈ openCommands) : isWriteCommand cmd = false := by
  have hall : ∀ cmd ∈ openCommands, isWriteCommand cmd = false := by decide +kernel
  exact hall cmd h

/-- A request of a locked connection: the node stays as it is, the reply does not depend on the data,
and it is NOAUTH for all but the open commands. -/
theorem processRequest_locked (hpw : svc.password ≠ []) (hconn : conn.Locked)
    (hauth : ¬ Authenticates svc.password args) (hsync : ¬ AsksSync s args) :
    ∃ reply conn', conn'.Locked ∧
      (∀ s', SameOutside s s' → processRequest svc conn s' args = (.reply reply, conn', s')) ∧
      ∀ name rest, args = name :: rest → toUpper name ∉ openCommands → reply = noAuth := by
  cases args with
  | nil => exact ⟨_, conn, hconn, fun s' _ => rfl, fun _ _ => nofun⟩
  | cons name rest =>
    -- no detour to a replica
    have hgate : ∀ s', SameOutside s s' → processRequest svc conn s' (name :: rest) =
        (.reply (executeCommand svc conn s' (toUpper name) rest).1,
          (executeCommand svc conn s' (toUpper name) rest).2.1,
          if (executeCommand svc conn s' (toUpper name) rest).2.2.isMaster &&
              shouldProp (toUpper name) (name :: rest)
                (executeCommand svc conn s' (toUpper name) rest).1 then
            propagateCommand (executeCommand svc conn s' (toUpper name) rest).2.2
          else (executeCommand svc conn s' (toUpper name) rest).2.2) := by
      intro s' hs'
      have hnone : (s'.replication.filter
          fun m => toUpper name = "PSYNC" ∧ m.role = .master) = none := by
        rw [Option.filter_eq_none_iff, ← hs'.1]
        intro m hm hboth
        rw [decide_eq_true_iff] at hboth
        exact hsync ⟨by simp [Node.isMaster, hm, hboth.2], hboth.1⟩
      rw [processRequest, hnone]
    by_cases hopen : toUpper name ∈ openCommands
    · have hwrong : toUpper name = "AUTH" → rest.headD [] ≠ svc.password :=
        fun hname hhead => hauth ⟨hname, hhead⟩
      obtain ⟨reply, conn', hlocked, heq⟩ := executeCommand_open (s := s) hpw hconn hopen hwrong
      refine ⟨reply, conn', hlocked, fun s' hs' => ?_, fun name' rest' h hno => ?_⟩
      · rw [hgate s' hs', heq s' hs']
        simp [shouldProp, not_isWriteCommand_open hopen]
      · cases h
        exact absurd hopen hno
    · refine ⟨noAuth, conn, hconn, fun s' hs' => ?_, fun _ _ _ _ => rfl⟩
      rw [hgate s' hs', executeCommand_refused hpw hconn hopen]
      have hprop : shouldProp (toUpper name) (name :: rest) noAuth = false := by
        simp [shouldProp, isErrorResponse, noAuth, Resp.err]
      simp [hprop]

end Gate

/-! ## Runs -/

/-- What happens to a connection and its node: a request, or something that others do. -/
inductive ConnEvent (σ κ : Type)
  | request (args : List Bytes)
  | others (after : Node σ κ)

def connStep (svc : Services σ κ) (st : Conn × Node σ κ) : ConnEvent σ κ → Option (Conn × Node σ κ)
  | .request args => some (processRequest svc st.1 st.2 args).2
  | .others after => some (st.1, after)

/-- What is written to the connection. -/
def transcript (svc : Services σ κ) : Conn × Node σ κ → List (ConnEvent σ κ) → List Output
  | _, [] => []
  | st, .request args :: es =>
    (processRequest svc st.1 st.2 args).1 :: transcript svc (processRequest svc st.1 st.2 args).2 es
  | st, .others after :: es => transcript svc (st.1, after) es

/-- No request is the one that authenticates. -/
def NeverAuthenticates (password : Bytes) (es : List (ConnEvent σ κ)) : Prop :=
  ∀ args, .request args ∈ es → ¬ Authenticates password args

/-- The request is not answered before the check. -/
def Checked (st : Conn × Node σ κ) : ConnEvent σ κ → Prop
  | .request args => ¬ AsksSync st.2 args
  | .others _ => True

instance (st : Conn × Node σ κ) : (e : ConnEvent σ κ) → Decidable (Checked st e)
  | .request args => inferInstanceAs (Decidable (¬ AsksSync st.2 args))
  | .others _ => .isTrue trivial

/-- The same requests; what others do may differ in the data. -/
inductive SameEvent : ConnEvent σ κ → ConnEvent σ κ → Prop
  | request (args : List Bytes) : SameEvent (.request args) (.request args)
  | others {s s' : Node σ κ} : SameOutside s s' → SameEvent (.others s) (.others s')

theorem NeverAuthenticates.tail {password : Bytes} {e : ConnEvent σ κ} {es : List (ConnEvent σ κ)}
    (h : NeverAuthenticates password (e :: es)) : NeverAuthenticates password es :=
  fun args hargs => h args (mem_cons_of_mem e hargs)

section Runs

variable {svc : Services σ κ} {conn : Conn} {s s' : Node σ κ} {es es' : List (ConnEvent σ κ)}

theorem locked_run (hpw : svc.password ≠ []) (hconn : conn.Locked)
    (hauth : NeverAuthenticates svc.password es) (hok : Meets (connStep svc) Checked (conn, s) es)
    {st : Conn × Node σ κ} (hrun : run (connStep svc) (conn, s) es = some st) : st.1.Locked := by
  induction es generalizing conn s with
  | nil =>
    cases hrun
    exact hconn
  | cons e es ih =>
    obtain ⟨st', hstep, hrest⟩ := run_cons_eq_some.mp hrun
    have htail := hok.tail hstep
    cases e with
    | request args =>
      obtain ⟨reply, conn', hlocked, heq, -⟩ :=
        processRequest_locked hpw hconn (hauth args mem_cons_self) hok.1
      rw [connStep, heq s ⟨rfl, rfl⟩] at hstep
      cases hstep
      exact ih hlocked hauth.tail htail hrest
    | others after =>
      cases hstep
      exact ih hconn hauth.tail htail hrest

/-- Two runs that differ in the data write the same to the connection. -/
theorem transcript_eq (hpw : svc.password ≠ []) (hconn : conn.Locked) (hs : SameOutside s s')
    (hes : List.Forall₂ SameEvent es es') (hauth : NeverAuthenticates svc.password es)
    (hok : Meets (connStep svc) Checked (conn, s) es) :
    transcript svc (conn, s) es = transcript svc (conn, s') es' := by
  induction hes generalizing conn s s' with
  | nil => rfl
  | cons hsame _ ih =>
    cases hsame with
    | request args =>
      obtain ⟨reply, conn', hlocked, heq, -⟩ :=
        processRequest_locked hpw hconn (hauth args mem_cons_self) hok.1
      have hstep : connStep svc (conn, s) (.request args) = some (conn', s) := by
        rw [connStep, heq s ⟨rfl, rfl⟩]
      rw [transcript, transcript, heq s ⟨rfl, rfl⟩, heq s' hs]
      exact congrArg _ (ih hlocked hs hauth.tail (hok.tail hstep))
    | others h => exact ih hconn h hauth.tail (hok.tail rfl)

/-- **The authentication gate.** On a connection without a correct `AUTH`, if no `PSYNC` is sent while
the node is a master: no request changes the node; every command but the open ones is answered with
NOAUTH; and what is written to the connection does not depend on the data, now or later. -/
theorem auth_gate (hpw : svc.password ≠ []) (hconn : conn.Locked)
    (hauth : NeverAuthenticates svc.password es)
    (hok : Meets (connStep svc) Checked (conn, s) es) :
    (∀ pre args post st, es = pre ++ .request args :: post →
      run (connStep svc) (conn, s) pre = some st →
        (processRequest svc st.1 st.2 args).2.2 = st.2 ∧
        ∀ name rest, args = name :: rest → toUpper name ∉ openCommands →
          (processRequest svc st.1 st.2 args).1 = .reply noAuth) ∧
    ∀ s' es', SameOutside s s' → List.Forall₂ SameEvent es es' →
      transcript svc (conn, s) es = transcript svc (conn, s') es' := by
  refine ⟨fun pre args post st hes hrun => ?_,
    fun s' es' hs hsame => transcript_eq hpw hconn hs hsame hauth hok⟩
  subst hes
  obtain ⟨hpre, hrest⟩ := (meets_append hrun).mp hok
  have hmem : ∀ {e}, e ∈ pre → e ∈ pre ++ .request args :: post := mem_append_left _
  have hlocked : st.1.Locked := locked_run hpw hconn (fun a ha => hauth a (hmem ha)) hpre hrun
  obtain ⟨reply, conn', -, heq, hreply⟩ :=
    processRequest_locked hpw hlocked (hauth args (by simp)) hrest.1
  rw [heq st.2 ⟨rfl, rfl⟩]
  exact ⟨rfl, fun name rest hargs hno => congrArg _ (hreply name rest hargs hno)⟩

end Runs

/-- A master with a password whose RDB is its data. -/
def locked : Services Bytes Unit where
  password := "secret"
  version := "1"
  command _ := .nested []
  rdb := some
  dispatch _ args conn s := (.one .ok, conn, { s with data := args.headD [] })

def masterNode (data : Bytes) : Node Bytes Unit := ⟨data, .empty, some ⟨.master, "id", []⟩, none⟩

/-- A connection that tries a wrong password, and then to write. -/
def intruder : List (ConnEvent Bytes Unit) :=
  [.request ["auth", "guess"], .request ["SET", "k", "v"],
    .request ["hello", "3"], .others (masterNode "b"), .request ["GET", "k"]]

theorem auth_gate_intruder :
    (∀ pre args post st, intruder = pre ++ .request args :: post →
      run (connStep locked) (⟨1, false, false, [], 0, false⟩, masterNode (ascii "a")) pre = some st →
        (processRequest locked st.1 st.2 args).2.2 = st.2 ∧
        ∀ name rest, args = name :: rest → toUpper name ∉ openCommands →
          (processRequest locked st.1 st.2 args).1 = .reply noAuth) ∧
    ∀ s' es', SameOutside (masterNode (ascii "a")) s' → List.Forall₂ SameEvent intruder es' →
      transcript locked (⟨1, false, false, [], 0, false⟩, masterNode (ascii "a")) intruder =
        transcript locked (⟨1, false, false, [], 0, false⟩, s') es' := by
  refine auth_gate (by decide) ⟨rfl, rfl⟩ ?_ ?_
  · intro args hargs
    have hcases : args = ["auth", "guess"] ∨ args = ["SET", "k", "v"] ∨
        args = ["hello", "3"] ∨ args = ["GET", "k"] := by
      simpa [intruder] using hargs
    rcases hcases with rfl | rfl | rfl | rfl <;> decide
  · decide +kernel

/-- An unauthenticated `PSYNC` to a master: the reply holds the data, and the node has one more
replica. -/
theorem psync_unauthenticated :
    locked.password ≠ [] ∧
    (processRequest locked ⟨1, false, false, [], 0, false⟩ (masterNode (ascii "a"))
        [ascii "PSYNC", ascii "?", ascii "-1"]).1 =
      .takeover ⟨ascii "+FULLRESYNC id 0 0" ++ crlf ++ ascii "$1" ++ crlf ++ ascii "a" ++ crlf, []⟩ ∧
    (processRequest locked ⟨1, false, false, [], 0, false⟩ (masterNode (ascii "b"))
        [ascii "PSYNC", ascii "?", ascii "-1"]).1 =
      .takeover ⟨ascii "+FULLRESYNC id 0 0" ++ crlf ++ ascii "$1" ++ crlf ++ ascii "b" ++ crlf, []⟩ ∧
    (processRequest locked ⟨1, false, false, [], 0, false⟩ (masterNode (ascii "a"))
        [ascii "PSYNC", ascii "?", ascii "-1"]).2.2.replication =
      some ⟨.master, ascii "id", [1]⟩ := by
  decide +kernel

end BoltDB.Server
