import Rollup.Text.Numeral

/-!
This module contains the URLs that tell where a store is. Their schemes are not among the special
ones, so a host is any text without the characters that have a meaning in a URL, or an address in
brackets.
-/

namespace Rollup.Wire

inductive Transport where
  | tcp
  | tls
  | socket
deriving DecidableEq

def transports : List (String × Transport) :=
  [("redis", .tcp), ("valkey", .tcp), ("rediss", .tls), ("valkeys", .tls),
    ("redis+unix", .socket), ("valkey+unix", .socket), ("unix", .socket)]

structure Url where
  transport : Transport
  host : Option String
  -- the number of the service at the host, if it is given
  service : Option Nat
  path : String
deriving DecidableEq

namespace Url

def cutBefore (p : Char → Bool) (cs : List Char) : List Char × List Char :=
  cs.span fun c => !p c

/--
Take away the blanks and controls around a URL, and all tabs and line ends in it.
-/
def clean (s : String) : List Char :=
  let isOuter (c : Char) : Bool := c ≤ ' '
  let inner := ((s.toList.dropWhile isOuter).reverse.dropWhile isOuter).reverse
  inner.filter fun c => !(c == '\t' || c == '\n' || c == '\r')

def scheme? (cs : List Char) : Option (String × List Char) :=
  match cutBefore (· == ':') cs with
  | (first :: more, _ :: rest) =>
    let isInner (c : Char) : Bool := c.isAlphanum || c == '+' || c == '-' || c == '.'
    if first.isAlpha && more.all isInner then
      some (String.ofList ((first :: more).map Char.toLower), rest)
    else
      none
  | _ => none

def isHexDigit (c : Char) : Bool :=
  c.isDigit || ('a' ≤ c && c ≤ 'f') || ('A' ≤ c && c ≤ 'F')

def isQuarter (s : String) : Bool :=
  match Text.readUnsigned 8 s with
  | .ok n => Text.decimal n == s
  | .error _ => false

/--
The number of 16-bit groups of a part of an address. Only the last part may end with an address in
four parts, which stands for two groups.
-/
def groups? (isLast : Bool) (s : String) : Option Nat :=
  if s = "" then some 0 else go (s.splitOn ":")
where
  isGroup (s : String) : Bool := 1 ≤ s.length && s.length ≤ 4 && s.all isHexDigit
  isTail (s : String) : Bool :=
    let parts := s.splitOn "."
    isLast && parts.length == 4 && parts.all isQuarter
  go : List String → Option Nat
    | [] => some 0
    | [s] => if isGroup s then some 1 else if isTail s then some 2 else none
    | s :: rest => if isGroup s then (go rest).map (· + 1) else none

/--
An address of eight 16-bit groups, of which a double colon stands for one zero group or more.
-/
def isAddress (s : String) : Bool :=
  match s.splitOn "::" with
  | [whole] => groups? true whole == some 8
  | [left, right] =>
    match groups? false left, groups? true right with
    | some m, some n => m + n ≤ 7
    | _, _ => false
  | _ => false

def isForbidden (c : Char) : Bool :=
  c == '\x00' || c == ' ' || c == '#' || c == '/' || c == ':' || c == '<' || c == '>' || c == '?'
    || c == '@' || c == '[' || c == '\\' || c == ']' || c == '^' || c == '|'

/--
A host, as it is written. An address loses its brackets.
-/
def host? (cs : List Char) : Option String :=
  match cs with
  | '[' :: rest =>
    let address := String.ofList rest.dropLast
    if rest.getLast? == some ']' && isAddress address then some address else none
  | _ => if cs.any isForbidden then none else some (String.ofList cs)

def cutHost (cs : List Char) : List Char × List Char :=
  go false [] cs
where
  go (bracketed : Bool) (host : List Char) : List Char → List Char × List Char
    | [] => (host.reverse, [])
    | c :: cs =>
      if c == ':' && !bracketed then (host.reverse, c :: cs)
      else go (c == '[' || (bracketed && c != ']')) (c :: host) cs

/--
The service number after a colon, if there is one, and what follows it. A backslash ends it.
-/
def service? (cs : List Char) : Option (Option Nat × List Char) :=
  let (digits, rest) := cs.span Char.isDigit
  if digits = [] then
    if rest.head?.all (· == '\\') then some (none, rest) else none
  else
    match Text.readUnsigned 16 (String.ofList digits) with
    | .ok n => if rest.head?.all (· == '\\') then some (some n, rest) else none
    | .error _ => none

def cutUser (cs : List Char) : Option (List Char) × List Char :=
  if cs.contains '@' then
    let (host, user) := cutBefore (· == '@') cs.reverse
    (some (user.drop 1).reverse, host.reverse)
  else
    (none, cs)

/--
The host and service number of an authority, and what follows them. A user or a service number needs
a host.
-/
def authority? (cs rest : List Char) : Option (Option String × Option Nat × List Char) :=
  let (user?, place) := cutUser cs
  if user? = some [] && place = [] && rest ≠ [] then
    none
  else
    let (hostText, afterHost) := cutHost place
    match host? hostText, afterHost with
    | none, _ => none
    | some "", _ :: _ => none
    | some "", [] =>
      if (user?.getD []).any (· != ':') || 1 < (user?.getD []).length then none
      else some (none, none, [])
    | some host, [] => some (some host, none, [])
    | some host, _ :: number =>
      (service? number).map fun (service, left) => (some host, service, left)

def parse? (s : String) : Option Url := do
  let (scheme, rest) ← scheme? (clean s)
  let transport ← transports.lookup scheme
  let isEnd (c : Char) : Bool := c == '?' || c == '#'
  match rest with
  | '/' :: '/' :: rest =>
    let (authority, rest) := cutBefore (fun c => c == '/' || isEnd c) rest
    let (host, service, left) ← authority? authority rest
    let (path, _) := cutBefore isEnd (left ++ rest)
    return { transport, host, service, path := String.ofList path }
  | _ =>
    let (path, _) := cutBefore isEnd rest
    return { transport, host := none, service := none, path := String.ofList path }

/--
The parts of a path, without the ones that lead nowhere and those they take back.
-/
def steps (path : String) : List String :=
  ((path.splitOn "/").foldl step []).reverse
where
  step (taken : List String) (part : String) : List String :=
    let plain := part.map Char.toLower
    if plain ∈ [".", "%2e"] then taken
    else if plain ∈ ["..", ".%2e", "%2e.", "%2e%2e"] then taken.drop 1
    else part :: taken

def inner (path : String) : String :=
  let text := ("/".intercalate (steps path)).toList
  String.ofList (((text.dropWhile (· == '/')).reverse.dropWhile (· == '/')).reverse)

end Url

end Rollup.Wire
