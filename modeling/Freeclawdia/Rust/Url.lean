import Freeclawdia.Rust.Str

/-!
# `Rust.Url` — IP addresses and URLs

`std::net`: addresses as octets and segments, the classification predicates of the standard library, and
`IpAddr::from_str`. The parser follows the standard library's: groups are read greedily, an octet has at most three
digits and no leading zero, an IPv6 address may end in an embedded IPv4 address and may skip groups with `::` once.
-/

namespace Freeclawdia

/-- `std::net::Ipv4Addr`. -/
structure Ipv4Addr where
  a : UInt8
  b : UInt8
  c : UInt8
  d : UInt8
  deriving DecidableEq

/-- `std::net::Ipv6Addr`, by segments. -/
structure Ipv6Addr where
  s0 : UInt16
  s1 : UInt16
  s2 : UInt16
  s3 : UInt16
  s4 : UInt16
  s5 : UInt16
  s6 : UInt16
  s7 : UInt16
  deriving DecidableEq

/-- `std::net::IpAddr`. -/
inductive IpAddr
  | v4 (addr : Ipv4Addr)
  | v6 (addr : Ipv6Addr)
  deriving DecidableEq

namespace Ipv4Addr

variable (ip : Ipv4Addr)

def isUnspecified : Bool := ip = ⟨0, 0, 0, 0⟩
def isLoopback : Bool := ip.a = 127
/-- 10.0.0.0/8, 172.16.0.0/12 and 192.168.0.0/16. -/
def isPrivate : Bool := ip.a = 10 || (ip.a = 172 && (16 ≤ ip.b && ip.b ≤ 31)) || (ip.a = 192 && ip.b = 168)
def isLinkLocal : Bool := ip.a = 169 && ip.b = 254
def isMulticast : Bool := 224 ≤ ip.a && ip.a ≤ 239
def isBroadcast : Bool := ip = ⟨255, 255, 255, 255⟩
/-- 192.0.2.0/24, 198.51.100.0/24 and 203.0.113.0/24. -/
def isDocumentation : Bool :=
  (ip.a = 192 && ip.b = 0 && ip.c = 2) || (ip.a = 198 && ip.b = 51 && ip.c = 100) ||
    (ip.a = 203 && ip.b = 0 && ip.c = 113)

end Ipv4Addr

namespace Ipv6Addr

variable (ip : Ipv6Addr)

def isUnspecified : Bool := ip = ⟨0, 0, 0, 0, 0, 0, 0, 0⟩
def isLoopback : Bool := ip = ⟨0, 0, 0, 0, 0, 0, 0, 1⟩
/-- fc00::/7. -/
def isUniqueLocal : Bool := ip.s0 &&& 0xFE00 = 0xFC00
/-- fe80::/10. -/
def isUnicastLinkLocal : Bool := ip.s0 &&& 0xFFC0 = 0xFE80
/-- ff00::/8. -/
def isMulticast : Bool := ip.s0 &&& 0xFF00 = 0xFF00

/-- The IPv4 address in the last two segments. -/
def embedded : Ipv4Addr := ⟨(ip.s6 >>> 8).toUInt8, ip.s6.toUInt8, (ip.s7 >>> 8).toUInt8, ip.s7.toUInt8⟩

/-- `to_ipv4_mapped`: the address `a.b.c.d` of `::ffff:a.b.c.d`. -/
def toIpv4Mapped : Option Ipv4Addr :=
  if ip.s0 = 0 ∧ ip.s1 = 0 ∧ ip.s2 = 0 ∧ ip.s3 = 0 ∧ ip.s4 = 0 ∧ ip.s5 = 0xFFFF then some ip.embedded else none

end Ipv6Addr

/-! ## Printing -/

/-- `Display` of an IPv4 address. -/
def Ipv4Addr.display (ip : Ipv4Addr) : String :=
  Rust.join "." [toString ip.a.toNat, toString ip.b.toNat, toString ip.c.toNat, toString ip.d.toNat]

namespace Ipv6Addr

/-- The segments, most significant first. -/
def segments (ip : Ipv6Addr) : List UInt16 := [ip.s0, ip.s1, ip.s2, ip.s3, ip.s4, ip.s5, ip.s6, ip.s7]

/-- The first of the longest runs of zeroes, as start and length. -/
def longestZeroes : (index start len : Nat) → (best : Nat × Nat) → List UInt16 → Nat × Nat
  | _, _, _, best, [] => best
  | index, start, len, best, g :: gs =>
    if g = 0 then
      let start := if len = 0 then index else start
      let best := if best.2 < len + 1 then (start, len + 1) else best
      longestZeroes (index + 1) start (len + 1) best gs
    else longestZeroes (index + 1) 0 0 best gs

/-- Groups in hexadecimal, separated by colons. -/
def displayGroups (gs : List UInt16) : String :=
  Rust.join ":" (gs.map fun g => String.ofList (Nat.toDigits 16 g.toNat))

/-- `Display` of an IPv6 address. -/
def display (ip : Ipv6Addr) : String :=
  match ip.toIpv4Mapped with
  | some v4 => "::ffff:" ++ v4.display
  | none =>
    let (start, len) := longestZeroes 0 0 0 (0, 0) ip.segments
    if 1 < len then displayGroups (ip.segments.take start) ++ "::" ++ displayGroups (ip.segments.drop (start + len))
    else displayGroups ip.segments

end Ipv6Addr

/-- `Display` of an address. -/
def IpAddr.display : IpAddr → String
  | .v4 ip => ip.display
  | .v6 ip => ip.display

example : (Ipv6Addr.mk 0x2001 0xDB8 0 0 1 0 0 1).display = "2001:db8::1:0:0:1" := by decide +kernel
example : (Ipv6Addr.mk 0 0 0 0 0 0xFFFF 0x0A00 1).display = "::ffff:10.0.0.1" := by decide +kernel

/-! ## Parsing -/

namespace IpParser

/-- `char::to_digit`, for the radixes 10 and 16. -/
def toDigit (radix : Nat) (c : Char) : Option Nat :=
  let value :=
    if '0' ≤ c && c ≤ '9' then some (c.toNat - 48)
    else if 'a' ≤ c && c ≤ 'f' then some (c.toNat - 87)
    else if 'A' ≤ c && c ≤ 'F' then some (c.toNat - 55)
    else none
  value.filter (· < radix)

/-- `read_number`: all the digits, at most `maxDigits` of them, for a number up to `limit`. -/
def readNumber (radix maxDigits limit : Nat) (allowZeroPrefix : Bool) (cs : List Char) : Option (Nat × List Char) :=
  let digits := cs.takeWhile fun c => (toDigit radix c).isSome
  let value := digits.foldl (fun n c => n * radix + (toDigit radix c).getD 0) 0
  if digits = [] ∨ maxDigits < digits.length ∨ limit < value then none
  else if !allowZeroPrefix && digits.head? = some '0' && 1 < digits.length then none
  else some (value, cs.dropWhile fun c => (toDigit radix c).isSome)

/-- `read_separator`: before every group but the first. -/
def readSeparator (sep : Char) (index : Nat) (cs : List Char) : Option (List Char) :=
  if index = 0 then some cs
  else match cs with
    | c :: rest => if c = sep then some rest else none
    | [] => none

/-- `read_ipv4_addr`. -/
def readIpv4 (cs : List Char) : Option (Ipv4Addr × List Char) := do
  let (a, cs) ← readNumber 10 3 255 false cs
  let cs ← readSeparator '.' 1 cs
  let (b, cs) ← readNumber 10 3 255 false cs
  let cs ← readSeparator '.' 2 cs
  let (c, cs) ← readNumber 10 3 255 false cs
  let cs ← readSeparator '.' 3 cs
  let (d, cs) ← readNumber 10 3 255 false cs
  pure (⟨UInt8.ofNat a, UInt8.ofNat b, UInt8.ofNat c, UInt8.ofNat d⟩, cs)

/-- `read_groups`: up to `room` groups, the first with the given index. Also says whether it ended in an embedded IPv4
    address. -/
def readGroups : (room index : Nat) → List Char → List UInt16 × Bool × List Char
  | 0, _, cs => ([], false, cs)
  | room + 1, index, cs =>
    -- an embedded address takes two groups
    let v4 := if room = 0 then none else (readSeparator ':' index cs).bind readIpv4
    match v4 with
    | some (ip, rest) =>
      ([UInt16.ofNat (ip.a.toNat * 256 + ip.b.toNat), UInt16.ofNat (ip.c.toNat * 256 + ip.d.toNat)], true, rest)
    | none =>
      match (readSeparator ':' index cs).bind (readNumber 16 4 0xFFFF true) with
      | some (g, rest) =>
        let (groups, v4, rest) := readGroups room (index + 1) rest
        (UInt16.ofNat g :: groups, v4, rest)
      | none => ([], false, cs)

/-- Eight groups. -/
def ofGroups : List UInt16 → Option Ipv6Addr
  | [s0, s1, s2, s3, s4, s5, s6, s7] => some ⟨s0, s1, s2, s3, s4, s5, s6, s7⟩
  | _ => none

/-- `read_ipv6_addr`: the groups up to a `::`, if there are fewer than eight, and those after it. -/
def readIpv6 (cs : List Char) : Option (Ipv6Addr × List Char) :=
  let (head, headV4, rest) := readGroups 8 0 cs
  if head.length = 8 then (ofGroups head).map fun ip => (ip, rest)
  else if headV4 then none
  else
    match rest with
    | ':' :: ':' :: rest =>
      let (tail, _, rest) := readGroups (8 - (head.length + 1)) 0 rest
      (ofGroups (head ++ List.replicate (8 - head.length - tail.length) 0 ++ tail)).map fun ip => (ip, rest)
    | _ => none

end IpParser

/-- `str::parse::<IpAddr>`: all of the text. -/
def parseIpAddr (s : String) : Option IpAddr :=
  match IpParser.readIpv4 s.toList with
  | some (ip, []) => some (.v4 ip)
  | _ =>
    match IpParser.readIpv6 s.toList with
    | some (ip, []) => some (.v6 ip)
    | _ => none

example : parseIpAddr "192.168.1.1" = some (.v4 ⟨192, 168, 1, 1⟩) := by decide +kernel
example : parseIpAddr "::ffff:10.0.0.1" = some (.v6 ⟨0, 0, 0, 0, 0, 0xFFFF, 0x0A00, 1⟩) := by decide +kernel
example : parseIpAddr "192.168.01.1" = none := by decide +kernel

/-! ## Resolving -/

/-- The system's resolver: the addresses of a name, or the text of an error. -/
abbrev Resolver := String → Except String (List IpAddr)

/-- `lookup_host` of a host and a port: a literal is its own address. -/
def lookupHost (dns : Resolver) (host : String) : Except String (List IpAddr) :=
  match parseIpAddr host with
  | some ip => .ok [ip]
  | none => dns host

/-- `to_socket_addrs` of `host:port`: a literal, an IPv6 one in brackets, is its own address. -/
def toSocketAddrs (dns : Resolver) (host : String) : Except String (List IpAddr) :=
  match parseIpAddr host with
  | some (.v4 ip) => .ok [.v4 ip]
  | _ =>
    match ((Rust.stripPrefix host "[").bind fun h => Rust.stripSuffix h "]").bind parseIpAddr with
    | some (.v6 ip) => .ok [.v6 ip]
    | _ => dns host

/-! ## Percent-decoding and parsed URLs

What the network-facing parts of the program use of Rust's standard library and of the `url` and `urlencoding`
crates. Parsing a URL is the crate's business: a parser is a parameter wherever one is needed, and only the record it
returns (`Url`) is fixed here. Percent-decoding works on the UTF-8 bytes, as `urlencoding::decode` does, and fails
when what it decoded is not UTF-8. -/

namespace Rust

/-! ## Pieces -/

/-- `str::split` at a character. -/
def splitChar (s : String) (c : Char) : List String := (s.toList.splitOn c).map String.ofList

/-! ## Percent-decoding -/

/-- `u8::is_ascii_hexdigit`. -/
def isHexDigit (c : Char) : Bool :=
  ('0' ≤ c && c ≤ '9') || ('a' ≤ c && c ≤ 'f') || ('A' ≤ c && c ≤ 'F')

/-- The value of a hexadecimal digit. -/
def hexValue (c : Char) : Nat :=
  if '0' ≤ c && c ≤ '9' then c.toNat - 48 else if 'a' ≤ c && c ≤ 'f' then c.toNat - 87 else c.toNat - 55

/-- The byte of an escape. -/
def escapeByte (a b : Char) : UInt8 := UInt8.ofNat (hexValue a * 16 + hexValue b)

/-- `urlencoding::decode_binary`: an escape becomes its byte, everything else is copied. -/
def percentDecode : List Char → List UInt8
  | [] => []
  | c :: a :: b :: more =>
    if c = '%' ∧ isHexDigit a ∧ isHexDigit b then escapeByte a b :: percentDecode more
    else String.utf8EncodeChar c ++ percentDecode (a :: b :: more)
  | c :: rest => String.utf8EncodeChar c ++ percentDecode rest

/-- `urlencoding::decode`. -/
def urldecode (s : String) : Option String := String.fromUTF8? (percentDecode s.toList).toByteArray

/-! ## Percent-encoding -/

/-- An upper-case hexadecimal digit. -/
def hexUpper (n : Nat) : Char := Char.ofNat (if n < 10 then 48 + n else 55 + n)

/-- The escape of a byte. -/
def escapeOf (b : UInt8) : List Char := ['%', hexUpper (b.toNat / 16), hexUpper (b.toNat % 16)]

/-- Escape the bytes of a text, but for those that stand for themselves or have a form of their own. -/
def percentEncode (plain : UInt8 → Option Char) (s : String) : String :=
  String.ofList ((s.toList.flatMap String.utf8EncodeChar).flatMap fun b =>
    match plain b with
    | some c => [c]
    | none => escapeOf b)

/-- An ASCII letter or digit as a byte. -/
def isAlphanumByte (b : UInt8) : Bool := (Char.ofNat b.toNat).isAlphanum

/-- `urlencoding::encode`. -/
def urlencode (s : String) : String :=
  percentEncode (fun b =>
    let c := Char.ofNat b.toNat
    if isAlphanumByte b || c = '-' || c = '_' || c = '.' || c = '~' then some c else none) s

/-- `form_urlencoded::byte_serialize`. -/
def formEncode (s : String) : String :=
  percentEncode (fun b =>
    let c := Char.ofNat b.toNat
    if isAlphanumByte b || c = '*' || c = '-' || c = '.' || c = '_' then some c
    else if c = ' ' then some '+' else none) s

/-! ## Parsed URLs -/

end Rust

/-- `url::Host`. -/
inductive UrlHost
  | domain (name : String)
  | ipv4 (addr : Ipv4Addr)
  | ipv6 (addr : Ipv6Addr)
  deriving DecidableEq

/-- What `url::Url::parse` returns, as far as it is read. `hostStr` is the text of `host`. -/
structure Url where
  scheme : String
  username : String
  password : Option String
  host : Option UrlHost
  hostStr : Option String
  port : Option Nat
  path : String
  query : Option String
  deriving DecidableEq

/-- `port_or_known_default`. -/
def Url.portOrKnownDefault (u : Url) : Option Nat :=
  match u.port with
  | some port => some port
  | none =>
    if u.scheme = "http" ∨ u.scheme = "ws" then some 80
    else if u.scheme = "https" ∨ u.scheme = "wss" then some 443
    else if u.scheme = "ftp" then some 21
    else none

/-- `query_pairs_mut().append_pair`. -/
def Url.appendPair (u : Url) (pair : String × String) : Url :=
  let encoded := Rust.formEncode pair.1 ++ "=" ++ Rust.formEncode pair.2
  let before := u.query.getD ""
  { u with query := some (if before = "" then encoded else before ++ "&" ++ encoded) }

/-- A host without the brackets of an IPv6 literal. -/
def unbracket (host : String) : String :=
  ((Rust.stripPrefix host "[").bind fun h => Rust.stripSuffix h "]").getD host

/-- `url::Url::parse`. The error is its text. -/
abbrev UrlParser := String → Except String Url

end Freeclawdia
