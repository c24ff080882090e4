import MarkupTidy.Text.Search

/-! # Bracketed hosts

A host in brackets is a numeric address of eight groups of four hexadecimal digits, of which a run
of zeros may be left out, or an address of a future version.

* `HostFault`: what is wrong with a host.
* `checkBracketed?`: the fault of a bracketed host, if it has one. -/

namespace MarkupTidy.Url

open MarkupTidy.Text

/-- What is wrong with the host of a URL. -/
inductive HostFault where
  /-- A bracket without its partner, or brackets that do not enclose the whole name of a host. -/
  | misplacedBracket
  /-- A future address that is not well formed. -/
  | futureAddress
  /-- A dotted address in brackets. -/
  | dottedAddress
  /-- No numeric address at all. -/
  | noAddress (host : String)
  /-- A character that stands for a delimiter once it is normalized. -/
  | disguisedDelimiter (host : String)
deriving DecidableEq, Repr

/-- One of four groups of a dotted address: a number up to 255 without leading zeros. -/
def isOctet (cs : List Char) : Bool :=
  !cs.isEmpty && cs.all Char.isDigit && cs.length ≤ 3 && (cs = ['0'] || cs.head? ≠ some '0')
    && cs.foldl (fun n c => 10 * n + (c.toNat - 0x30)) 0 ≤ 255

/-- A dotted address. -/
def isDotted (cs : List Char) : Bool :=
  let octets := splitOn '.' cs
  octets.length = 4 && octets.all isOctet

/-- A hexadecimal digit. -/
def isHexDigit (c : Char) : Bool :=
  c.isDigit || ('a' ≤ c && c ≤ 'f') || ('A' ≤ c && c ≤ 'F')

/-- One group of a numeric address. -/
def isGroup (cs : List Char) : Bool :=
  !cs.isEmpty && cs.length ≤ 4 && cs.all isHexDigit

/-- The groups of an address; a dotted end counts as two groups. -/
def addressGroups? (cs : List Char) : Option (List (List Char)) :=
  let groups := splitOn ':' cs
  if groups.length < 3 then none
  else
    match groups.getLast? with
    | some last =>
      if last.contains '.' then
        if isDotted last then some (groups.dropLast ++ [['0'], ['0']]) else none
      else some groups
    | none => none

/-- Groups before and after the gap of an address, if there is exactly one gap; the empty ends next
to a gap at the front or the back do not count. -/
def areGroupsAround (groups : List (List Char)) : Bool :=
  let inner := groups.tail.dropLast
  let gaps := inner.filter (·.isEmpty)
  match gaps.length with
  | 0 => groups.length = 8 && groups.all isGroup
  | 1 =>
    let before := groups.head?.toList ++ inner.takeWhile fun g => !g.isEmpty
    let after := (inner.dropWhile fun g => !g.isEmpty).tail ++ groups.getLast?.toList
    let before := if before = [[]] then [] else before
    let after := if after = [[]] then [] else after
    before.length + after.length < 8 && before.all isGroup && after.all isGroup
  | _ => false

/-- A numeric address of eight groups, with an optional zone after a percent sign. -/
def isNumeric (cs : List Char) : Bool :=
  let plain := match cutAt? '%' cs with
    | none => some cs
    | some (address, zone) => if zone.isEmpty || zone.contains '%' then none else some address
  match plain with
  | none => false
  | some address =>
    match addressGroups? address with
    | none => false
    | some groups => groups.length ≤ 9 && areGroupsAround groups

/-- An address of a future version: a version number and a nonempty address. -/
def isFuture : List Char → Bool
  | 'v' :: rest =>
    match rest.dropWhile isHexDigit with
    | '.' :: address => !(rest.takeWhile isHexDigit).isEmpty && !address.isEmpty
    | _ => false
  | _ => false

/-- The fault of a bracketed host. -/
def checkBracketed? (host : List Char) : Option HostFault :=
  if startsWith ['v'] host then if isFuture host then none else some .futureAddress
  else if isDotted host then some .dottedAddress
  else if isNumeric host then none
  else some (.noAddress (String.ofList host))

end MarkupTidy.Url
