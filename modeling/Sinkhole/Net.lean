namespace Sinkhole.Net

/-- A decimal number up to 255 without leading zeros. -/
def isOctet (s : String) : Bool :=
  let cs := s.toList
  !cs.isEmpty && cs.length ≤ 3 && cs.all Char.isDigit
    && (cs.length == 1 || cs.head? != some '0')
    && cs.foldl (fun n c => 10 * n + (c.toNat - '0'.toNat)) 0 ≤ 255

def isIPv4 (s : String) : Bool :=
  let octets := s.splitOn "."
  octets.length == 4 && octets.all isOctet

def isHexDigit (c : Char) : Bool :=
  c.isDigit || ('a' ≤ c && c ≤ 'f') || ('A' ≤ c && c ≤ 'F')

def isGroup (s : String) : Bool :=
  let cs := s.toList
  !cs.isEmpty && cs.length ≤ 4 && cs.all isHexDigit

/-- How many groups a part of an address without `::` spells out. Octets stand for two groups and
come last. -/
def groupCount? (octetsLast : Bool) : List String → Option Nat
  | [] => some 0
  | [s] => if isGroup s then some 1 else if octetsLast && isIPv4 s then some 2 else none
  | s :: rest => if isGroup s then (groupCount? octetsLast rest).map (· + 1) else none

def sideCount? (octetsLast : Bool) (s : String) : Option Nat :=
  if s = "" then some 0 else groupCount? octetsLast (s.splitOn ":")

/-- `::` stands for one group at least. -/
def isIPv6 (s : String) : Bool :=
  match s.splitOn "::" with
  | [whole] => groupCount? true (whole.splitOn ":") == some 8
  | [left, right] =>
    match sideCount? false left, sideCount? true right with
    | some l, some r => l + r ≤ 7
    | _, _ => false
  | _ => false

end Sinkhole.Net

namespace Sinkhole

structure HardwareAddress where
  bytes : List UInt8
  nonempty : bytes ≠ []
  length_le : bytes.length ≤ 16
  deriving DecidableEq

namespace HardwareAddress

def ofBytes? (bytes : List UInt8) : Option HardwareAddress :=
  if h : bytes ≠ [] ∧ bytes.length ≤ 16 then some ⟨bytes, h.1, h.2⟩ else none

def byteText (b : UInt8) : String :=
  let digits := Nat.toDigits 16 b.toNat
  String.ofList (if digits.length < 2 then '0' :: digits else digits)

def text (a : HardwareAddress) : String :=
  ":".intercalate (a.bytes.map byteText)

end HardwareAddress

/-- The address of the alias-client that presents the client with a network address and, if it is
known, a hardware address. -/
abbrev AliasLookup : Type :=
  String → Option HardwareAddress → Option String

/-- Entries by network address and by hardware address, the latest first. -/
structure AliasBook where
  byAddress : List (String × String) := []
  byHardware : List (HardwareAddress × String) := []

namespace AliasBook

def addAddress (book : AliasBook) (address key : String) : AliasBook :=
  { book with byAddress := (address, key) :: book.byAddress }

def addHardware (book : AliasBook) (hardware : HardwareAddress) (key : String) : AliasBook :=
  { book with byHardware := (hardware, key) :: book.byHardware }

def key? (book : AliasBook) : AliasLookup := fun address hardware =>
  (hardware.bind fun a => book.byHardware.lookup a).or (book.byAddress.lookup address)

end AliasBook

end Sinkhole
