import BoltDB.Lib.Interleaving
import BoltDB.Store.Strings
import BoltDB.Store.TimeSeries

/-!
# Commands as programs

`queued_commands.go`, `string_commands.go`, `timeseries_commands.go` and `handler_utils.go`: what a
handler does to the store, call by call, and the reply. A call of the store is atomic, since it holds
the lock of its key or reads a snapshot; between two calls of one handler other clients may act. The
cluster is off, so no command is redirected.
-/

namespace BoltDB.Server

open Bytes KeyValue Store Interleaving

/-! ## Replies -/

/-- `proto.RESP`, as far as these handlers use it. -/
inductive Resp
  | simple (text : String)
  | error (text : Bytes)
  /-- `ERR` and the text of an error of the store -/
  | storeError (e : Err)
  | integer (n : Int64)
  | bulk (b : Bytes)
  /-- `$-1` -/
  | nilBulk
  /-- `_`, from version 3 of the protocol on -/
  | null
  | array (elems : List Bytes)
  deriving DecidableEq

namespace Resp

def ok : Resp := .simple "OK"

def err (text : String) : Resp := .error (ascii text)

def wrongType : Resp := err "WRONGTYPE Operation against a key holding the wrong kind of value"

def syntaxError : Resp := err "ERR syntax error"

def notInteger : Resp := err "ERR value is not an integer or out of range"

def wrongNumber (cmd : String) : Resp :=
  err ("ERR wrong number of arguments for '" ++ cmd ++ "' command")

end Resp

def wrapLogError (e : Err) : Resp := .storeError e

def wrapStoreError (e : Err) : Resp := if e = .wrongType then .wrongType else wrapLogError e

/-- `nilBulkString`. -/
def nilBulkString (respVersion : Nat) : Resp := if respVersion = 3 then .null else .nilBulk

/-- What a handler does: calls of the store, each at some time, and a reply. -/
abbrev Program := Prog Nat Db Resp

/-- One call of the store. -/
def call {α : Type} (m : Nat → Run Err α) (k : Except Err α → Program) : Program := Prog.perform m k

/-! ## SET -/

structure SetOptions where
  ttl : Int := 0
  nx : Bool := false
  xx : Bool := false
  get : Bool := false
  keepTTL : Bool := false
  deriving DecidableEq

/-- A positive number of units, in nanoseconds. -/
def parseTTL (unit : Int) (arg : Bytes) : Except Resp Int :=
  match parseInt64 arg with
  | none => .error .notInteger
  | some n =>
    if n ≤ 0 then .error (.err "ERR invalid expire time in 'set' command")
    else .ok (Strings.duration (n.toInt * unit))

/-- The time until an absolute time in units; one nanosecond if it has passed. -/
def parseDeadline (now : Nat) (unit : Int) (arg : Bytes) : Except Resp Int :=
  match parseInt64 arg with
  | none => .error .notInteger
  | some n =>
    let remaining := n - Int64.ofInt (now / unit)
    if remaining < 0 then .ok 1 else .ok (Strings.duration (remaining.toInt * unit))

/-- The options after the value. -/
def parseSetOptions (now : Nat) (o : SetOptions) : List Bytes → Except Resp SetOptions
  | [] => if o.nx && o.xx then .error .syntaxError else .ok o
  | opt :: rest =>
    let opt := toUpper opt
    if opt = "NX" then parseSetOptions now { o with nx := true } rest
    else if opt = "XX" then parseSetOptions now { o with xx := true } rest
    else if opt = "GET" then parseSetOptions now { o with get := true } rest
    else if opt = "KEEPTTL" then parseSetOptions now { o with keepTTL := true } rest
    else
      match rest with
      | [] => .error .syntaxError
      | arg :: rest =>
        let ttl :=
          if opt = "EX" then parseTTL 1000000000 arg
          else if opt = "PX" then parseTTL 1000000 arg
          else if opt = "EXAT" then parseDeadline now 1000000000 arg
          else if opt = "PXAT" then parseDeadline now 1000000 arg
          else .error .syntaxError
        match ttl with
        | .error e => .error e
        | .ok ttl => parseSetOptions now { o with ttl } rest

section

variable (c : Codec) (respVersion : Nat)

/-- The reply after the write. -/
def setReply (o : SetOptions) (old : Option Bytes) : Resp :=
  if o.get then
    match old with
    | none => nilBulkString respVersion
    | some v => .bulk v
  else .ok

/-- A call whose error is the reply. -/
def callOr {α : Type} (wrap : Err → Resp) (m : Nat → Run Err α) (k : α → Program) : Program :=
  call m fun r =>
    match r with
    | .ok a => k a
    | .error e => .ret (wrap e)

/-- `setKeyWithOpts` after the old value was read. -/
def setKey (key value : Bytes) (o : SetOptions) (old : Option Bytes) : Program :=
  if o.nx && old.isSome || o.xx && old.isNone then .ret (nilBulkString respVersion)
  else if o.keepTTL then
    call (fun now => view now (ttl now key)) fun left =>
      callOr wrapStoreError (fun now => Strings.set c now key value) fun _ =>
        match left with
        | .ok seconds =>
          if 0 < seconds then
            callOr wrapStoreError (fun now => expire now key (Int64.ofInt seconds)) fun _ =>
              .ret (setReply respVersion o old)
          else .ret (setReply respVersion o old)
        | .error _ => .ret (setReply respVersion o old)
  else if 0 < o.ttl then
    if o.ttl < 1000000000 then
      -- too short for the store: the value is written and then expires at once
      callOr wrapStoreError (fun now => Strings.set c now key value) fun _ =>
        callOr wrapLogError (fun now => expireAt now key 1) fun _ => .ret (setReply respVersion o old)
    else
      callOr wrapStoreError (fun now => Strings.setWithTTL c now key value o.ttl) fun _ =>
        .ret (setReply respVersion o old)
  else
    callOr wrapStoreError (fun now => Strings.set c now key value) fun _ =>
      .ret (setReply respVersion o old)

/-- The old value is read whatever the options; a value of another type counts as missing. -/
def setKeyWithOpts (key value : Bytes) (o : SetOptions) : Program :=
  call (fun now => view now (Strings.get c key)) fun r =>
    match r with
    | .ok old => setKey c respVersion key value o (some old)
    | .error e =>
      if e = .keyNotFound ∨ e = .wrongType then setKey c respVersion key value o none
      else .ret (wrapStoreError e)

def handleSET (start : Nat) : List Bytes → Program
  | key :: value :: opts =>
    match parseSetOptions start {} opts with
    | .error e => .ret e
    | .ok o => setKeyWithOpts c respVersion key value o
  | _ => .ret (.wrongNumber "SET")

def handleSETNX : List Bytes → Program
  | key :: value :: _ =>
    callOr wrapStoreError (fun now => Strings.setNX c now key value) fun set =>
      .ret (.integer (if set then 1 else 0))
  | _ => .ret (.wrongNumber "SETNX")

/-- The value is read and then deleted. -/
def handleGETDEL : List Bytes → Program
  | key :: _ =>
    call (fun now => view now (Strings.get c key)) fun r =>
      match r with
      | .ok v => callOr wrapLogError (fun now => del now key) fun _ => .ret (.bulk v)
      | .error e =>
        .ret (if e = .keyNotFound then nilBulkString respVersion
          else if e = .wrongType then .wrongType else wrapLogError e)
  | _ => .ret (.wrongNumber "GETDEL")

end

/-! ## TS.INCRBY -/

structure IncrOptions where
  timestamp : Int64 := 0
  add : TimeSeries.AddOptions := ⟨[], 0⟩
  deriving DecidableEq

/-- The options after the increment. -/
def parseIncrOptions (o : IncrOptions) : List Bytes → Except Resp IncrOptions
  | [] => .ok o
  | name :: rest =>
    let opt := toUpper name
    if opt ∉ ["TIMESTAMP", "ON_DUPLICATE", "RETENTION"].map ascii then
      .error (.error ("ERR unsupported option '" ++ name ++ "'"))
    else
      match rest with
      | [] => .error .syntaxError
      | arg :: rest =>
        if opt = "TIMESTAMP" then
          match parseInt64 arg with
          | none => .error (.err "ERR invalid timestamp")
          | some t => parseIncrOptions { o with timestamp := t } rest
        else if opt = "ON_DUPLICATE" then
          parseIncrOptions { o with add := { o.add with onDuplicate := arg } } rest
        else
          match parseInt64 arg with
          | none => .error (.err "ERR invalid RETENTION value")
          | some r =>
            if r < 0 then .error (.err "ERR invalid RETENTION value")
            else parseIncrOptions { o with add := { o.add with retention := r } } rest

def incrError (e : Err) : Resp :=
  if e = .keyNotFound then .err "ERR the key does not exist"
  else if e = .wrongType then .wrongType else wrapLogError e

/-- `TSIncrBy`, which reads the sample and then calls `TSAdd`; only the second takes the lock. -/
def tsIncrBy (key : Bytes) (timestamp : Int64) (value : F64) (o : TimeSeries.AddOptions) : Program :=
  callOr incrError (fun now => view now (TimeSeries.incrBase key timestamp)) fun base =>
    callOr incrError (fun now => TimeSeries.tsAdd now key base.1 (base.2.add value) o) fun ts =>
      .ret (.integer ts)

def handleTSINCRBY : List Bytes → Program
  | key :: value :: opts =>
    match F64.parseFloat value with
    | .error _ => .ret (.err "ERR invalid value")
    | .ok x =>
      match parseIncrOptions {} opts with
      | .error e => .ret e
      | .ok o => tsIncrBy key o.timestamp x o.add
  | _ => .ret (.wrongNumber "TS.INCRBY")

end BoltDB.Server
