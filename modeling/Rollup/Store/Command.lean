import Rollup.Count
import Rollup.Store.Failure
import Std.Data.ExtTreeMap

/-!
This module contains the commands of a key/value store of strings, hashes and sets, with the type of
the reply to each of them.
-/

namespace Rollup.Store

abbrev Hash := Std.ExtTreeMap String Count

inductive Verb where
  | hincrby
  | hgetall
  | incrBy
  | get
  | sadd
  | srem
  | smembers
  | del
  | batchDel
deriving DecidableEq

namespace Verb

def name : Verb → String
  | hincrby => "hincrby"
  | hgetall => "hgetall"
  | incrBy => "incr_by"
  | get => "get"
  | sadd => "sadd"
  | srem => "srem"
  | smembers => "smembers"
  | del => "del"
  | batchDel => "batch_del"

def all : List Verb := [hincrby, hgetall, incrBy, get, sadd, srem, smembers, del, batchDel]

theorem mem_all (verb : Verb) : verb ∈ all := by
  cases verb <;> decide

def ofName? (s : String) : Option Verb :=
  all.find? fun verb => verb.name == s

end Verb

inductive Command where
  -- add to a field of a hash, from zero if there is none
  | hincrby (key field : String) (amount : Count)
  -- read a hash, which is empty if there is none
  | hgetall (key : String)
  -- add to a string that is a count, from zero if there is none
  | incrBy (key : String) (amount : Count)
  | get (key : String)
  | sadd (key member : String)
  | srem (key : String) (members : List String)
  -- read a set, which is empty if there is none
  | smembers (key : String)
  | del (key : String)
  | batchDel (keys : List String)
deriving DecidableEq

namespace Command

def verb : Command → Verb
  | hincrby .. => .hincrby
  | hgetall .. => .hgetall
  | incrBy .. => .incrBy
  | get .. => .get
  | sadd .. => .sadd
  | srem .. => .srem
  | smembers .. => .smembers
  | del .. => .del
  | batchDel .. => .batchDel

/--
What a command answers when it succeeds. Increments answer the new value.
-/
def Reply : Command → Type
  | hincrby .. => Count
  | hgetall .. => Hash
  | incrBy .. => Count
  | get .. => String
  | sadd .. => Unit
  | srem .. => Unit
  | smembers .. => List String
  | del .. => Unit
  | batchDel .. => Unit

/--
The key that a command is about. A command about many keys tells their number.
-/
def subject : Command → String
  | hincrby key .. | hgetall key | incrBy key .. | get key | sadd key .. => key
  | srem key .. | smembers key | del key => key
  | batchDel keys => s!"keys={keys.length}"

end Command

/--
How commands are sent: each gets its reply or a failure, and may change the state `σ` behind it.
-/
abbrev Client (σ : Type) := (c : Command) → σ → Except Failure c.Reply × σ

end Rollup.Store
