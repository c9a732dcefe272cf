import KongGateway.Lib.LuaPattern
import KongGateway.Kong.Tools.Http

/-!
# Ip — host addresses

`normalize_ip` tells by the colons and digits of a string whether it is an
IPv4 address, an IPv6 address or a name, and hands it to the parser for
that; each returns the address as it is to be written and the port.
`format_host` writes a normalised address down again.

The outer `Except` is an error that is raised, the inner one `nil` with an
error text.
-/

namespace KongGateway.Kong.Tools.Ip

open Bytes Numerals LuaPattern

/-- `hostname_type` gives one of these. -/
inductive HostType where
  | ipv4
  | ipv6
  | name
  deriving DecidableEq

/-- `hostname_type` -/
def hostnameType (name : Text) : HostType :=
  let remainder := name.filter (· ≠ 58)
  let colons := name.count 58
  if colons > 1 then .ipv6
  else if (matchAll [Item.plus fun c => isDigit c || c = 46] remainder).isSome then .ipv4
  else .name

/-! ## IPv4 -/

/-- `%d%d?%d?` -/
def octet : Item Byte := ⟨isDigit, 1, some 3, true⟩

/-- `:(%d+)` -/
def colonPort : List (Item Byte) := [Item.lit 58, (Item.plus isDigit).capture]

/-- The captures with a port number, or without. -/
def matchIpv4 (address : Text) : Option (List Text) :=
  if 58 ∈ address then matchAll (fields octet 46 4 ++ colonPort) address
  else matchAll (fields octet 46 4) address

/-- `normalize_ipv4`. Digits never give a number below zero. -/
def normalizeIpv4 (address : Text) : Except Text (Text × Option Nat) :=
  match matchIpv4 address with
  | some (a :: b :: c :: d :: port) =>
    let octets := [a, b, c, d].map decimalNumber
    if octets.any (· > 255) then .error (ofText "invalid ipv4 address: " ++ address)
    else
      match port.head?.map decimalNumber with
      | some port =>
        if port > 65535 then .error (ofText "invalid port number")
        else .ok ([46].intercalate (octets.map decimal), some port)
      | none => .ok ([46].intercalate (octets.map decimal), none)
  | _ => .error (ofText "invalid ipv4 address: " ++ address)

/-! ## IPv6 -/

/-- What `%b[]` takes behind its first bracket and what is left, with
`depth` more brackets to close. -/
def closeBracket : Nat → Text → Option (Text × Text)
  | _, [] => none
  | depth, c :: s =>
    if c = 93 then
      match depth with
      | 0 => some ([c], s)
      | depth + 1 => (closeBracket depth s).map fun found => (c :: found.1, found.2)
    else
      let depth := if c = 91 then depth + 1 else depth
      (closeBracket depth s).map fun found => (c :: found.1, found.2)

/-- The captures of `^(%b[])(.-)$`. -/
def bracketed : Text → Option (Text × Text)
  | [] => none
  | c :: s =>
    if c = 91 then (closeBracket 0 s).map fun found => (c :: found.1, found.2) else none

/-- `gsub(check, "::", ins, 1)` -/
def replaceDouble (ins : Text) : Text → Text
  | c :: d :: s => if c = 58 ∧ d = 58 then ins ++ s else c :: replaceDouble ins (d :: s)
  | s => s

/-- A zero is put before a colon at the start and behind one at the end. -/
def fillEnds (check : Text) : Text :=
  let check := if check.head? = some 58 then 48 :: check else check
  if check.getLast? = some 58 then check ++ [48] else check

/-- The double colon is expanded. -/
def expandDouble (check : Text) : Text :=
  if [58, 58] <:+: check then
    let ins := 58 :: (List.replicate (8 - check.count 58) [48, 58]).flatten
    replaceDouble ins check
  else check

/-- `%x%x?%x?%x?` -/
def hextet : Item Byte := ⟨isHex, 1, some 4, true⟩

/-- `zeros:sub(1, 4 - #group) .. group` -/
def padGroup (group : Text) : Text := List.replicate (4 - group.length) 48 ++ group

/-- The part of `normalize_ipv6` behind the comment "check ipv6 format and
normalize". -/
def normalizeGroups (address check : Text) (port : Option Nat) :
    Except Text (Text × Option Nat) :=
  match matchAll (fields hextet 58 8) (expandDouble (fillEnds check)) with
  | none => .error (ofText "invalid ipv6 address: " ++ address)
  | some groups => .ok (lowerText ([58].intercalate (groups.map padGroup)), port)

/-- `normalize_ipv6`. The `%d-` before the end takes what `%d*` takes, and
`tonumber("")` is `nil`. -/
def normalizeIpv6 (address : Text) : Except String (Except Text (Text × Option Nat)) :=
  match bracketed address with
  | none => .ok (normalizeGroups address address none)
  | some (check, rest) =>
    let check := (check.drop 1).dropLast
    if rest = [] then .ok (normalizeGroups address check none)
    else
      match matchAll [Item.lit 58, (Item.star isDigit).capture] rest with
      | some [port] =>
        if port = [] then .error "attempt to compare number with nil"
        else if decimalNumber port > 65535 then .ok (.error (ofText "invalid port number"))
        else .ok (normalizeGroups address check (some (decimalNumber port)))
      | _ => .ok (.error (ofText "invalid ipv6 address"))

/-! ## Names -/

/-- The capture of `:(%d+)$`, which is tried from every position. -/
def portSuffix : Text → Option Text
  | [] => none
  | c :: s =>
    match matchAll colonPort (c :: s) with
    | some [port] => some port
    | _ => portSuffix s

/-- `[%d%a%-%.%_]` -/
def isNameChar (c : Byte) : Bool :=
  isDigit c || (65 ≤ c.val ∧ c.val ≤ 90) || (97 ≤ c.val ∧ c.val ≤ 122) || c = 45 || c = 46 || c = 95

/-- The rejected segments, the last of which may be empty. -/
def badSegment (count : Nat) (entry : Text × Nat) : Bool :=
  entry.1.getLast? = some 45 || entry.1.head? = some 46 || entry.1.getLast? = some 46
    || (entry.1 = [] && entry.2 + 1 ≠ count)

/-- `check_hostname` behind the port. -/
def checkName (address name : Text) (port : Option Nat) : Except Text (Text × Option Nat) :=
  if (matchAll [Item.plus isNameChar] name).isNone then
    .error (ofText "invalid hostname: " ++ address)
  else
    let t := name.splitOn 46
    if t.zipIdx.any (badSegment t.length) then .error (ofText "invalid hostname: " ++ address)
    else .ok (name, port)

/-- `check_hostname` -/
def checkHostname (address : Text) : Except Text (Text × Option Nat) :=
  match portSuffix address with
  | none => checkName address address none
  | some port =>
    if decimalNumber port > 65535 then .error (ofText "invalid port number")
    else
      checkName address (address.take (address.length - (port.length + 1)))
        (some (decimalNumber port))

/-! ## Addresses -/

/-- The table that `normalize_ip` returns. -/
structure Host where
  type : HostType
  host : Text
  port : Option Nat
  deriving DecidableEq

/-- `verify_types` -/
def verifyTypes : HostType → Text → Except String (Except Text (Text × Option Nat))
  | .ipv4, address => .ok (normalizeIpv4 address)
  | .ipv6, address => normalizeIpv6 address
  | .name, address => .ok (checkHostname address)

/-- `normalize_ip` -/
def normalizeIp (address : Text) : Except String (Except Text Host) :=
  let atype := hostnameType address
  (verifyTypes atype address).map fun verified =>
    verified.map fun found => ⟨atype, found.1, found.2⟩

/-- A port, or an error that is passed through. -/
inductive Port where
  | absent
  | number (n : Nat)
  | text (s : Text)
  deriving DecidableEq

/-- The first argument of `format_host`; `other` is a value of another type. -/
inductive HostArg where
  | absent
  | table (host : Text) (port : Port) (type : Option HostType)
  | text (host : Text)
  | other (type : Text)

/-- `port and ":" .. port or ""` -/
def Port.suffix : Port → Text
  | .absent => []
  | .number n => 58 :: decimal n
  | .text s => 58 :: s

/-- The end of `format_host`. -/
def formatTyped (typ : HostType) (host : Text) (port : Port) : Except String (Except Port Text) :=
  if typ = .ipv6 ∧ 91 ∉ host then
    match normalizeIpv6 host with
    | .error raised => .error raised
    | .ok (.error _) => .error "attempt to concatenate a nil value"
    | .ok (.ok (addr, _)) => .ok (.ok (91 :: addr ++ 93 :: port.suffix))
  else .ok (.ok (host ++ port.suffix))

/-- `format_host` -/
def formatHost (p1 : HostArg) (p2 : Port) : Except String (Except Port Text) :=
  match p1 with
  | .absent => .ok (.error p2)
  | .table host port typ =>
    let port := if port = .absent then p2 else port
    formatTyped (typ.getD (hostnameType host)) host port
  | .text host => formatTyped (hostnameType host) host p2
  | .other t => .ok (.error (.text (ofText "cannot format type '" ++ t ++ ofText "'")))

/-- The port of a table of `normalize_ip`. -/
def portArg : Option Nat → Port
  | none => .absent
  | some n => .number n

/-- The table of `normalize_ip` as an argument. -/
def Host.arg (t : Host) : HostArg := .table t.host (portArg t.port) (some t.type)

theorem bracketed_of_notMem {s : Text} (h : (91 : Byte) ∉ s) : bracketed s = none := by
  cases s with
  | nil => rfl
  | cons c s =>
    have hc : c ≠ 91 := fun heq => h (heq ▸ List.mem_cons_self)
    rw [bracketed, if_neg hc]

end KongGateway.Kong.Tools.Ip
