import Rollup.Store.Command

/-!
This module contains the values that a server replies with: their written form, and the replies to
store commands that they convert to.
-/

namespace Rollup.Wire

open Rollup.Store

inductive Value where
  | nil
  | int (n : Int)
  | simple (text : String)
  | bulk (text : String)
  | array (items : List Value)
  -- an error code with what was written after it
  | error (code : String) (detail : Option String)

namespace Value

def line? : List Char → Option (String × List Char)
  | '\r' :: '\n' :: rest => some ("", rest)
  | c :: rest => (line? rest).map fun (line, rest) => (c.toString ++ line, rest)
  | [] => none

def bytes? : Nat → List Char → Option (List Char × List Char)
  | 0, rest => some ([], rest)
  | n + 1, c :: rest =>
    if c.utf8Size ≤ n + 1 then
      (bytes? (n + 1 - c.utf8Size) rest).map fun (taken, rest) => (c :: taken, rest)
    else
      none
  | _ + 1, [] => none
termination_by _ cs => cs.length

def ofErrorLine (line : String) : Value :=
  match line.splitOn " " with
  | [] => error "" none
  | [code] => error code none
  | code :: words => error code (some (" ".intercalate words))

def readItems? (read? : List Char → Option (Value × List Char)) :
    Nat → List Char → Option (List Value × List Char)
  | 0, cs => some ([], cs)
  | n + 1, cs => do
    let (item, cs) ← read? cs
    let (items, cs) ← readItems? read? n cs
    return (item :: items, cs)

def read? : Nat → List Char → Option (Value × List Char)
  | 0, _ => none
  | depth + 1, cs => do
    match cs with
    | [] => none
    | mark :: cs =>
      let (line, cs) ← line? cs
      if mark = '+' then
        return (simple line, cs)
      else if mark = '-' then
        return (ofErrorLine line, cs)
      else
        let n ← (Text.readSigned 64 line).toOption
        if mark = ':' then
          return (int n, cs)
        else if mark = '$' then
          if n < 0 then
            return (nil, cs)
          let (text, cs) ← bytes? n.toNat cs
          let (_, cs) ← line? cs
          return (bulk (String.ofList text), cs)
        else if mark = '*' then
          if n < 0 then
            return (nil, cs)
          let (items, cs) ← readItems? (read? depth) n.toNat cs
          return (array items, cs)
        else
          none

def ofText? (s : String) : Option Value :=
  (read? (s.length + 1) s.toList).map Prod.fst

def codes : List (String × FaultKind) :=
  [("ERR", .responseError), ("EXECABORT", .execAbortError), ("LOADING", .busyLoadingError),
    ("NOSCRIPT", .noScriptError), ("MOVED", .moved), ("ASK", .ask), ("TRYAGAIN", .tryAgain),
    ("CLUSTERDOWN", .clusterDown), ("CROSSSLOT", .crossSlot), ("MASTERDOWN", .masterDown),
    ("READONLY", .readOnly), ("NOTBUSY", .notBusy)]

def faultOf (code : String) (detail : Option String) : Failure :=
  match codes.lookup code with
  | some kind => .reported kind "An error was signalled by the server" detail
  | none => .extension code (detail.getD "Unknown extension error encountered")

mutual

def fault? : Value → Option Failure
  | error code detail => some (faultOf code detail)
  | array items => firstFault? items
  | _ => none

def firstFault? : List Value → Option Failure
  | [] => none
  | item :: items =>
    match item.fault? with
    | some failure => some failure
    | none => firstFault? items

end

def mismatch : Failure :=
  .reported .typeError "Response was of incompatible type" none

def toCount : Value → Except Failure Count
  | int n => (Count.ofInt? n).elim (.error mismatch) .ok
  | simple text | bulk text => (Count.read text).mapError fun _ => mismatch
  | _ => .error mismatch

def toText : Value → Except Failure String
  | int n => .ok (Text.decimal n)
  | simple text | bulk text => .ok text
  | _ => .error mismatch

def toEntries : List Value → Except Failure (List (String × Count))
  | [] => .ok []
  | [_] => .error mismatch
  | key :: value :: rest => do
    let key ← key.toText
    let value ← value.toCount
    return (key, value) :: (← toEntries rest)

def toHash : Value → Except Failure Hash
  | nil => .ok ∅
  | array items => do
    let entries ← toEntries items
    return entries.foldl (fun hash (field, count) => hash.insert field count) ∅
  | _ => .error mismatch

def toTexts : Value → Except Failure (List String)
  | nil => .ok []
  | bulk text => .ok [text]
  | array items => items.mapM toText
  | _ => .error mismatch

def toReply (value : Value) : (c : Command) → Except Failure c.Reply
  | .hincrby .. => value.toCount
  | .hgetall _ => value.toHash
  | .incrBy .. => value.toCount
  | .get _ =>
    match value with
    | nil => .error .notFound
    | value => value.toText
  | .sadd .. => .ok ()
  | .srem .. => .ok ()
  | .smembers _ => value.toTexts
  | .del _ => .ok ()
  | .batchDel _ => .ok ()

end Value

/--
The words of a command on the wire. Nothing is sent where there is nothing to remove.
-/
def wordsOf? : Command → Option (List String)
  | .hincrby key field amount => some ["HINCRBY", key, field, amount.text]
  | .hgetall key => some ["HGETALL", key]
  | .incrBy key amount => some ["INCRBY", key, amount.text]
  | .get key => some ["GET", key]
  | .sadd key member => some ["SADD", key, member]
  | .srem _ [] => none
  | .srem key members => some ("SREM" :: key :: members)
  | .smembers key => some ["SMEMBERS", key]
  | .del key => some ["DEL", key]
  | .batchDel [] => none
  | .batchDel keys => some ("DEL" :: keys)

end Rollup.Wire
