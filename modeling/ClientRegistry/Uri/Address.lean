import ClientRegistry.Number.Numeral
import ClientRegistry.Text.Split
import ClientRegistry.Uri.Chars

/-! Host literals that stand in brackets: IPv6 addresses, with a zone or without, and addresses
of a future version. -/

namespace ClientRegistry.Uri

/-- A number of at most 255, without leading zeros. -/
def isOctet (ds : List Char) : Bool :=
  !ds.isEmpty && ds.all isDigit && ds.length ≤ 3
    && (ds == ['0'] || ds.head? != some '0') && Numeral.value ds ≤ 255

def isIpv4 (cs : List Char) : Bool :=
  let parts := Text.splitAll '.' cs
  parts.length == 4 && parts.all isOctet

/-- One to four hexadecimal digits. -/
def isHextet (cs : List Char) : Bool :=
  !cs.isEmpty && cs.all isHexDigit && cs.length ≤ 4

/-- The parts with an address of version 4 at the end taken as two hextets. -/
def expandIpv4 (parts : List (List Char)) : Option (List (List Char)) :=
  match parts.getLast? with
  | some final =>
    if final.contains '.' then
      if isIpv4 final then some (parts.dropLast ++ [['0'], ['0']]) else none
    else some parts
  | none => some parts

/-- The position of the one empty part between the ends, if there is any. Two are refused. -/
def skipIndex (parts : List (List Char)) : Option (Option Nat) :=
  let inner := (List.range parts.length).filter fun i =>
    1 ≤ i && i + 1 < parts.length && (parts.getD i []).isEmpty
  match inner with
  | [] => some none
  | [i] => some (some i)
  | _ => none

/-- The parts on one side of a double colon; an empty part may only be the whole side. -/
def side (parts : List (List Char)) : Option (List (List Char)) :=
  if parts == [[]] then some []
  else if parts.all isHextet then some parts
  else none

/-- Eight hextets, or at most seven around a double colon. -/
def isIpv6Parts (parts : List (List Char)) : Bool :=
  match skipIndex parts with
  | none => false
  | some none => parts.length == 8 && parts.all isHextet
  | some (some i) =>
    match side (parts.take i), side (parts.drop (i + 1)) with
    | some before, some after => before.length + after.length ≤ 7
    | _, _ => false

/-- An address of version 6; a zone follows a percent sign and holds no other one. -/
def isIpv6 (cs : List Char) : Bool :=
  let (address, zone) := Text.cut '%' cs
  let zoneOk := match zone with
    | none => true
    | some z => !z.isEmpty && !z.contains '%'
  let parts := Text.splitAll ':' address
  zoneOk && 3 ≤ parts.length
    && (match expandIpv4 parts with
      | some ps => ps.length ≤ 9 && isIpv6Parts ps
      | none => false)

/-- A lower-case `v`, hexadecimal digits, a point and anything else. -/
def isFutureAddress (cs : List Char) : Bool :=
  match cs with
  | 'v' :: rest =>
    let digits := rest.takeWhile isHexDigit
    !digits.isEmpty && (match rest.drop digits.length with
      | '.' :: _ :: _ => true
      | _ => false)
  | _ => false

/-- What may stand between brackets. -/
def isAddressLiteral (cs : List Char) : Bool :=
  if cs.head? == some 'v' then isFutureAddress cs else isIpv6 cs

end ClientRegistry.Uri
