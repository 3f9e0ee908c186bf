import Mathlib

/-! Addresses and address ranges of `iprange.h`, and how a range is read from text. -/

namespace OpenGauss.IPRange

/-- The `ip_32` view of an address, lowest word first. -/
structure IPV6 where
  a : UInt32
  b : UInt32
  c : UInt32
  d : UInt32
deriving DecidableEq, Repr

namespace IPV6

def lower (ip : IPV6) : Nat := ip.a.toNat + 2 ^ 32 * ip.b.toNat

def upper (ip : IPV6) : Nat := ip.c.toNat + 2 ^ 32 * ip.d.toNat

instance : LT IPV6 where
  lt lhs rhs := lhs.upper < rhs.upper ∨ lhs.lower < rhs.lower

/-- The source defines the other comparisons by `operator<`. -/
instance : LE IPV6 where
  le lhs rhs := ¬ rhs < lhs

instance (lhs rhs : IPV6) : Decidable (lhs < rhs) :=
  inferInstanceAs (Decidable (lhs.upper < rhs.upper ∨ lhs.lower < rhs.lower))

instance (lhs rhs : IPV6) : Decidable (lhs ≤ rhs) :=
  inferInstanceAs (Decidable (¬ rhs < lhs))

def complement (ip : IPV6) : IPV6 := ⟨~~~ip.a, ~~~ip.b, ~~~ip.c, ~~~ip.d⟩

variable (lhs rhs : IPV6)

def and : IPV6 :=
  ⟨lhs.a &&& rhs.a, lhs.b &&& rhs.b, lhs.c &&& rhs.c, lhs.d &&& rhs.d⟩

def or : IPV6 :=
  ⟨lhs.a ||| rhs.a, lhs.b ||| rhs.b, lhs.c ||| rhs.c, lhs.d ||| rhs.d⟩

def add : IPV6 :=
  if lhs.b = 0x0000FFFF then ⟨lhs.a + rhs.a, 0x0000FFFF, 0, 0⟩
  else
    let tmpA := lhs.a.toUInt64 + rhs.a.toUInt64
    let tmpB := lhs.b.toUInt64 + rhs.b.toUInt64 + (tmpA >>> 32)
    let tmpC := lhs.c.toUInt64 + rhs.c.toUInt64 + (tmpB >>> 32)
    let tmpD := lhs.d.toUInt64 + rhs.d.toUInt64 + (tmpC >>> 32)
    ⟨tmpA.toUInt32, tmpB.toUInt32, tmpC.toUInt32, tmpD.toUInt32⟩

def sub : IPV6 :=
  if lhs.b = 0x0000FFFF then ⟨lhs.a - rhs.a, 0x0000FFFF, 0, 0⟩
  else
    let tmpA := lhs.a.toUInt64 - rhs.a.toUInt64
    let tmpB := lhs.b.toUInt64 - rhs.b.toUInt64 - (tmpA >>> 63)
    let tmpC := lhs.c.toUInt64 - rhs.c.toUInt64 - (tmpB >>> 63)
    let tmpD := lhs.d.toUInt64 - rhs.d.toUInt64 - (tmpC >>> 63)
    ⟨tmpA.toUInt32, tmpB.toUInt32, tmpC.toUInt32, tmpD.toUInt32⟩

def succ (ip : IPV6) : IPV6 := ip.add ⟨1, 0, 0, 0⟩

def pred (ip : IPV6) : IPV6 := ip.sub ⟨1, 0, 0, 0⟩

def max : IPV6 := if lhs < rhs then rhs else lhs

def min : IPV6 := if rhs < lhs then rhs else lhs

def looksIPv4 (ip : IPV6) : Bool := ip.b = 0x0000FFFF

end IPV6

/-- The fields `from` and `to` of the source; both words are reserved here. -/
structure Range where
  fromIp : IPV6
  toIp : IPV6
deriving DecidableEq, Repr

/-- What the C library reads from a NUL-terminated text: the bytes of an address in network
order, or none where `inet_pton` reports no address, and the value of `atoi`. -/
structure Libc where
  inetPton6 : List UInt8 → Option (Fin 16 → UInt8)
  inetPton4 : List UInt8 → Option (Fin 4 → UInt8)
  atoi : List UInt8 → Int

def ntohl (b0 b1 b2 b3 : UInt8) : UInt32 :=
  b0.toUInt32 <<< 24 ||| b1.toUInt32 <<< 16 ||| b2.toUInt32 <<< 8 ||| b3.toUInt32

def netIpv6ToHostOrder (bytes : Fin 16 → UInt8) : IPV6 where
  a := ntohl (bytes 12) (bytes 13) (bytes 14) (bytes 15)
  b := ntohl (bytes 8) (bytes 9) (bytes 10) (bytes 11)
  c := ntohl (bytes 4) (bytes 5) (bytes 6) (bytes 7)
  d := ntohl (bytes 0) (bytes 1) (bytes 2) (bytes 3)

def netIpv4ToHostOrder (bytes : Fin 4 → UInt8) : IPV6 :=
  ⟨ntohl (bytes 0) (bytes 1) (bytes 2) (bytes 3), 0x0000FFFF, 0, 0⟩

/-- The text a C function sees: what stands before the first NUL. -/
def cString (text : List UInt8) : List UInt8 := text.takeWhile (· ≠ 0)

def ipMaxLen : Nat := 128

/-- The buffer filled by `copy_without_spaces`, all zero beforehand, as a C string. -/
def copyWithoutSpaces (original : List UInt8) : List UInt8 :=
  if original.length = 0 ∨ ipMaxLen < original.length then []
  else cString (original.filter (· ≠ ' '.toUInt8))

def maskFromLut : List UInt32 :=
  [0xFFFFFFFF] ++ (List.range 31).map (fun index => (0xFFFFFFFF : UInt32) <<< UInt32.ofNat (31 - index)) ++
    [0xFFFFFFFF]

def maskToLut : List UInt32 :=
  [0] ++ (List.range 31).map (fun index => ~~~((0xFFFFFFFF : UInt32) <<< UInt32.ofNat (31 - index))) ++
    [0xFFFFFFFF]

def maskFrom (word : UInt32) (cidr : Nat) : UInt32 := word &&& maskFromLut.getD cidr 0

def maskTo (word : UInt32) (cidr : Nat) : UInt32 := word ||| maskToLut.getD cidr 0

/-- `none` where the source reports an invalid prefix length. -/
def maskRange (range : Range) (cidr : UInt16) : Option Range :=
  let low := range.fromIp
  let high := range.toIp
  if low.looksIPv4 then
    if cidr < 1 ∨ 32 < cidr then none
    else some ⟨{ low with a := maskFrom low.a cidr.toNat },
      { high with a := maskTo high.a cidr.toNat }⟩
  else if cidr < 1 ∨ 128 < cidr then none
  else
    let complement := cidr.toNat % 32
    if 96 < cidr then
      some ⟨{ low with a := maskFrom low.a complement }, { high with a := maskTo high.a complement }⟩
    else if 64 < cidr then
      some ⟨{ low with b := maskFrom low.b complement, a := 0 },
        { high with b := maskTo high.b complement, a := 0xFFFFFFFF }⟩
    else if 32 < cidr then
      some ⟨{ low with c := maskFrom low.c complement, b := 0, a := 0 },
        { high with c := maskTo high.c complement, b := 0xFFFFFFFF, a := 0xFFFFFFFF }⟩
    else
      some ⟨{ low with d := maskFrom low.d complement, c := 0, b := 0, a := 0 },
        { high with d := maskTo high.d complement, c := 0xFFFFFFFF, b := 0xFFFFFFFF,
                    a := 0xFFFFFFFF }⟩

def maxRangeLen : Nat := 100

section Parsing

variable (libc : Libc)

def strToIp (ipStr : List UInt8) : Option IPV6 :=
  match libc.inetPton6 ipStr with
  | some bytes => some (netIpv6ToHostOrder bytes)
  | none => (libc.inetPton4 ipStr).map netIpv4ToHostOrder

variable (range : List UInt8)

def parseMask (ptr : Nat) : Option Range :=
  if maxRangeLen < range.length then none
  else do
    let ip ← strToIp libc (copyWithoutSpaces (range.take ptr))
    let maskIp ← strToIp libc (copyWithoutSpaces (range.drop (ptr + 1)))
    if maskIp.b = 0x0000FFFF then
      some ⟨⟨ip.a &&& maskIp.a, 0x0000FFFF, 0, 0⟩, ⟨ip.a ||| ~~~maskIp.a, 0x0000FFFF, 0, 0⟩⟩
    else some ⟨ip.and maskIp, ip.or maskIp.complement⟩

def parseSingle : Option Range :=
  if maxRangeLen < range.length then none
  else do
    let ip ← strToIp libc (copyWithoutSpaces range)
    some ⟨ip, ip⟩

/-- An invalid prefix length is ignored and leaves the single address. -/
def parseSlash (ptr : Nat) : Option Range :=
  if maxRangeLen < range.length then none
  else do
    let cidr := UInt16.ofInt (libc.atoi (cString (range.drop (ptr + 1))))
    let ip ← strToIp libc (copyWithoutSpaces (range.take ptr))
    some ((maskRange ⟨ip, ip⟩ cidr).getD ⟨ip, ip⟩)

def parseHyphen (ptr : Nat) : Option Range :=
  if maxRangeLen < range.length then none
  else do
    let first ← strToIp libc (copyWithoutSpaces (range.take ptr))
    let second ← strToIp libc (copyWithoutSpaces (range.drop (ptr + 1)))
    if second < first then none else some ⟨first, second⟩

def memchr (character : Char) : Option Nat :=
  range.findIdx? (· = character.toUInt8)

/-- The text is NUL-terminated at its length, as a `std::string` is. -/
def parseRange : Option Range :=
  match memchr range '/' with
  | some ptr => parseSlash libc range ptr
  | none =>
    match memchr range '-' with
    | some ptr => parseHyphen libc range ptr
    | none =>
      match memchr range '|' with
      | some ptr => parseMask libc range ptr
      | none => parseSingle libc range

end Parsing

/-- The widened new range where it meets the existing one, `none` where the source reports no
intersection. -/
def handleAddIntersection (newRange existRange : Range) : Option Range :=
  let rangeMin := IPV6.max newRange.fromIp existRange.fromIp
  let rangeMax := IPV6.min newRange.toIp existRange.toIp
  if rangeMax < rangeMin then none
  else some ⟨IPV6.min newRange.fromIp existRange.fromIp, IPV6.max newRange.toIp existRange.toIp⟩

def handleRemoveIntersection (removeRange existRange : Range) : List Range :=
  let rangeMin := IPV6.max removeRange.fromIp existRange.fromIp
  let rangeMax := IPV6.min removeRange.toIp existRange.toIp
  if rangeMax < rangeMin then [existRange]
  else if removeRange.fromIp ≤ existRange.fromIp ∧ existRange.toIp ≤ removeRange.toIp then []
  else if removeRange.fromIp ≤ existRange.fromIp then
    [{ existRange with fromIp := removeRange.toIp.succ }]
  else if existRange.toIp ≤ removeRange.toIp then
    [{ existRange with toIp := removeRange.fromIp.pred }]
  else
    [⟨existRange.fromIp, removeRange.fromIp.pred⟩, ⟨removeRange.toIp.succ, existRange.toIp⟩]

/-- The two loops of `add_range` from the element they stand at; `newRanges` holds what was
pushed, and what is left after a `break` is copied. -/
def addLoop (newRange : Range) (weHadIntersection : Bool) (newRanges : List Range) : List Range → List Range
  | [] => if weHadIntersection then newRanges ++ [newRange] else newRanges
  | existRange :: rest =>
    match handleAddIntersection newRange existRange with
    | some widened => addLoop widened true newRanges rest
    | none =>
      if weHadIntersection then newRanges ++ [newRange] ++ existRange :: rest
      else if newRange.toIp < existRange.fromIp then
        newRanges ++ [newRange] ++ existRange :: rest
      else addLoop newRange false (newRanges ++ [existRange]) rest

def addRange (ranges : List Range) (newRange : Range) : List Range :=
  match ranges.head?, ranges.getLast? with
  | some front, some back =>
    if newRange.toIp < front.fromIp then newRange :: ranges
    else if back.toIp < newRange.fromIp then ranges ++ [newRange]
    else addLoop newRange false [] ranges
  | _, _ => newRange :: ranges

def removeRange (ranges : List Range) (removed : Range) : List Range :=
  ranges.flatMap (handleRemoveIntersection removed)

/-- The public calls: a range is given as text, or for `add_range` as a `Range` too. -/
inductive Call where
  | addText (range : List UInt8)
  | addRange (range : Range)
  | removeText (range : List UInt8)
deriving DecidableEq, Repr

namespace Call

variable (libc : Libc)

def range : Call → Option Range
  | addText text => parseRange libc text
  | addRange given => some given
  | removeText text => parseRange libc text

/-- `none` where the call returns false. -/
def perform (ranges : List Range) : Call → Option (List Range)
  | addText text => (parseRange libc text).map (IPRange.addRange ranges)
  | addRange given => some (IPRange.addRange ranges given)
  | removeText text => (parseRange libc text).map (removeRange ranges)

def performAll : List Range → List Call → Option (List Range)
  | ranges, [] => some ranges
  | ranges, call :: calls => (call.perform libc ranges).bind fun next => performAll next calls

end Call

/-- The addresses of a range, by the comparisons `is_in_range` makes. -/
def Range.addresses (range : Range) : Set IPV6 := {ip | range.fromIp ≤ ip ∧ ip ≤ range.toIp}

def covered (ranges : List Range) : Set IPV6 := {ip | ∃ range ∈ ranges, ip ∈ range.addresses}

def Call.meaning (libc : Libc) (addresses : Set IPV6) (call : Call) : Set IPV6 :=
  match call, call.range libc with
  | removeText _, some range => addresses \ range.addresses
  | _, some range => addresses ∪ range.addresses
  | _, none => addresses

def IPV6.IsIPv4 (ip : IPV6) : Prop := ip.b = 0x0000FFFF ∧ ip.c = 0 ∧ ip.d = 0

/-- A range of IPv4 addresses; one that is handed over as a `Range` runs upwards. -/
def Call.IsIPv4 (libc : Libc) : Call → Prop
  | addRange given => given.fromIp.IsIPv4 ∧ given.toIp.IsIPv4 ∧ given.fromIp ≤ given.toIp
  | call => ∀ range ∈ call.range libc, range.fromIp.IsIPv4 ∧ range.toIp.IsIPv4

/-- Sorted by start, disjoint, and no range runs downwards. -/
structure WellFormed (ranges : List Range) : Prop where
  sorted : ranges.Pairwise fun range later => range.fromIp < later.fromIp
  disjoint : ranges.Pairwise fun range later => range.toIp < later.fromIp
  upwards : ∀ range ∈ ranges, range.fromIp ≤ range.toIp

end OpenGauss.IPRange
