import MarkupTidy.Text.Quoted
import MarkupTidy.Url.Host

/-! # The path of a URL

The path of an address that begins with `http://` or `https://`: what stands between the host and
the parameters, the query or the fragment.  Tabs and line breaks anywhere in a URL are left out.

* `isWebAddress`: whether a reference is such an address.
* `path`: its path, unless its host is at fault. -/

namespace MarkupTidy.Url

open MarkupTidy.Text

/-- The beginnings of a web address. -/
def webSchemes : List (List Char) := ["http://".toList, "https://".toList]

/-- Whether a reference is a web address. -/
def isWebAddress (reference : List Char) : Bool :=
  webSchemes.any (startsWith · reference)

/-- Characters whose normalized form holds a delimiter of a URL. -/
def disguisedDelimiters : List Nat := [
  0x2047, 0x2048, 0x2049, 0x2100, 0x2101, 0x2105, 0x2106, 0x2A74, 0xFE13, 0xFE16, 0xFE55, 0xFE56,
  0xFE5F, 0xFE6B, 0xFF03, 0xFF0F, 0xFF1A, 0xFF1F, 0xFF20]

/-- The name in a host and port in which an address stands in brackets: the brackets begin the host,
and nothing but a port may follow them. -/
def bracketedName? (hostAndPort : List Char) : Option (List Char) :=
  match cutAt? '[' hostAndPort with
  | none => some (hostAndPort.takeWhile (· ≠ ':'))
  | some (_ :: _, _) => none
  | some ([], inside) =>
    match cutAt? ']' inside with
    | none => some inside
    | some (name, []) => some name
    | some (name, ':' :: _) => some name
    | some (_, _ :: _) => none

/-- The fault of a host with its user and port.  With brackets anywhere, the name of the host has to
be an address, also where only its user has the brackets. -/
def hostFault? (host : List Char) : Option HostFault :=
  let bracketFault? :=
    match host.contains '[', host.contains ']' with
    | false, false => none
    | true, true =>
      match bracketedName? (afterLast '@' host) with
      | some name => checkBracketed? name
      | none => some .misplacedBracket
    | _, _ => some .misplacedBracket
  match bracketFault? with
  | some fault => some fault
  | none =>
    if host.any fun c => disguisedDelimiters.contains c.toNat then
      some (.disguisedDelimiter (String.ofList host))
    else none

/-- A path without the parameters of its last segment. -/
def withoutParameters (path : List Char) : List Char :=
  let last := afterLast '/' path
  path.take (path.length - last.length) ++ last.takeWhile (· ≠ ';')

/-- The path of a web address. -/
def path (address : List Char) : Except HostFault (List Char) :=
  let plain := address.filter fun c => c != '\t' && c != '\r' && c != '\n'
  let rest := (plain.dropWhile (· ≠ ':')).drop 3
  let isEnd (c : Char) : Bool := c == '/' || c == '?' || c == '#'
  match hostFault? (rest.takeWhile fun c => !isEnd c) with
  | some fault => .error fault
  | none =>
    .ok (withoutParameters
      ((rest.dropWhile fun c => !isEnd c).takeWhile fun c => c != '?' && c != '#'))

/-- The wording of a fault. -/
def HostFault.message : HostFault → String
  | misplacedBracket => "Invalid IPv6 URL"
  | futureAddress => "IPvFuture address is invalid"
  | dottedAddress => "An IPv4 address cannot be in brackets"
  | noAddress host =>
    quotedText host ++ " does not appear to be an IPv4 or IPv6 address"
  | disguisedDelimiter host =>
    "netloc '" ++ host ++ "' contains invalid characters under NFKC normalization"

end MarkupTidy.Url
