import BoltDB.Store.Base

/-!
# Listing the keys

`scan.go`: the keys are those with a `TYPE_` record, in byte order. Patterns are matched by code
point.
-/

namespace BoltDB.Store

open Bytes KeyValue

/-! ## Patterns -/

/-- The length and the least and greatest second byte of a code point that starts with a byte. -/
def runeShape (b : UInt8) : Option (Nat × UInt8 × UInt8) :=
  if b < 0x80 then some (1, 0, 0)
  else if b < 0xC2 then none
  else if b < 0xE0 then some (2, 0x80, 0xBF)
  else if b = 0xE0 then some (3, 0xA0, 0xBF)
  else if b = 0xED then some (3, 0x80, 0x9F)
  else if b < 0xF0 then some (3, 0x80, 0xBF)
  else if b = 0xF0 then some (4, 0x90, 0xBF)
  else if b < 0xF4 then some (4, 0x80, 0xBF)
  else if b = 0xF4 then some (4, 0x80, 0x8F)
  else none

def isContinuation (b : UInt8) : Bool := 0x80 ≤ b && b ≤ 0xBF

/-- The six low bits of continuation bytes after the bits of a first byte. -/
def joinRune (first : Nat) (rest : Bytes) : Nat :=
  rest.foldl (fun r b => r * 64 + (b.toNat - 128)) first

/-- The code point at the start of a text and its length; a byte that starts none is U+FFFD. -/
def decodeRune (b : UInt8) (rest : Bytes) : Nat × Nat :=
  match runeShape b with
  | none => (0xFFFD, 1)
  | some (1, _) => (b.toNat, 1)
  | some (size, low, high) =>
    let tail := rest.take (size - 1)
    let ok := tail.length = size - 1 && tail.all isContinuation &&
      (tail.head?.any fun second => low ≤ second && second ≤ high)
    if ok then (joinRune (b.toNat % 2 ^ (7 - size)) tail, size) else (0xFFFD, 1)

/-- `[]rune(s)`, given a bound on the length. -/
def runesFuel : Nat → Bytes → List Nat
  | 0, _ | _, [] => []
  | n + 1, b :: rest =>
    let r := decodeRune b rest
    r.1 :: runesFuel n (rest.drop (r.2 - 1))

def runes (s : Bytes) : List Nat := runesFuel s.length s

/-- The first row of the table: which prefixes of the pattern match the empty key. -/
def firstRow : List Nat → List Bool
  | [] => []
  | p :: ps => if p = 42 then true :: firstRow ps else (p :: ps).map fun _ => false

/-- The row for one more code point of the key. `left` is the entry before in the new row, `diag` the
one in the row above it; `above` holds the rest of that row. -/
def nextRow (r : Nat) : (left diag : Bool) → List Nat → (above : List Bool) → List Bool
  | left, diag, p :: ps, up :: above =>
    let cell := if p = 42 then left || up else if p = 63 then diag else p = r && diag
    cell :: nextRow r cell up ps above
  | _, _, _, _ => []

/-- `matchPattern`: `*` and `?` in the pattern, row by row of the table. -/
def matchPattern (key pattern : Bytes) : Bool :=
  if pattern = "*" then true
  else
    let pat := runes pattern
    let row := (runes key).foldl (fun row r =>
      false :: nextRow r false (row.head?.getD false) pat row.tail) (true :: firstRow pat)
    row.getLast?.getD false

/-! ## Reading -/

def keyOfType (p : Bytes) : Bytes := p.drop (ascii "TYPE_").length

/-- All keys. -/
def allKeys : View Err (List Bytes) := do
  return (← View.scan "TYPE_").map (keyOfType ·.1)

/-- `KEYS`. -/
def keys (pattern : Bytes) : View Err (List Bytes) := do
  return (← allKeys).filter (matchPattern · pattern)

/-- `DBSIZE`. -/
def dbSize : View Err Nat := do return (← allKeys).length

def scanMatches (pattern key : Bytes) : Bool :=
  pattern = [] || pattern = "*" || matchPattern key pattern

/-- The loop of `Scan`: the keys found, and the last key looked at if there are more. -/
def scanLoop (pattern : Bytes) : Nat → List Bytes → Bytes → List Bytes × Option Bytes
  | _, [], _ => ([], none)
  | 0, _ :: _, last => ([], some last)
  | n + 1, key :: keys, _ =>
    if scanMatches pattern key then
      let r := scanLoop pattern n keys key
      (key :: r.1, r.2)
    else scanLoop pattern (n + 1) keys key

/-- The keys from a bookmark on, without the first of them. -/
def afterBookmark (keys : List Bytes) : Option Bytes → List Bytes
  | none => keys
  | some last => (keys.filter fun key => compare key last ≠ .lt).tail

/-- `SCAN` from the start or after a bookmark. -/
def scanFrom (bookmark : Option Bytes) (pattern : Bytes) (count : Int64) :
    View Err (List Bytes × Option Bytes) := do
  let keys ← allKeys
  return scanLoop pattern (if count ≤ 0 then 10 else count.toInt.toNat)
    (afterBookmark keys bookmark) []

end BoltDB.Store
