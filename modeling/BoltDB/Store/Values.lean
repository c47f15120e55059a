import BoltDB.Lib.Float64

/-!
# Values that are stored as JSON

The values that the store hands to `encoding/json` and gets back from it: JSON documents, the fields of
a stream entry and consumer groups.
-/

namespace BoltDB.Store

/-- An `interface{}` that `encoding/json` fills. -/
inductive Json
  | null
  | bool (b : Bool)
  | num (x : F64)
  | str (s : Bytes)
  | arr (elems : List Json)
  | obj (fields : List (Bytes × Json))

/-- The fields of a stream entry. -/
abbrev Fields := Std.ExtTreeMap Bytes Bytes compare

structure StreamConsumer where
  name : Bytes
  lastSeen : Int64
  deriving DecidableEq

structure StreamPendingEntry where
  id : Bytes
  consumer : Bytes
  deliveryCount : Int64
  lastDelivery : Int64
  deriving DecidableEq

structure StreamGroup where
  name : Bytes
  lastDeliveredID : Bytes
  consumers : Std.ExtTreeMap Bytes StreamConsumer compare
  pending : Std.ExtTreeMap Bytes StreamPendingEntry compare

/-- What `encoding/json` computes. A number that is not finite cannot be marshalled. -/
structure JsonCodec where
  marshal : Json → Option Bytes
  unmarshal : Bytes → Option Json
  marshalFields : Fields → Bytes
  unmarshalFields : Bytes → Option Fields
  marshalGroup : StreamGroup → Bytes
  unmarshalGroup : Bytes → Option StreamGroup

end BoltDB.Store
