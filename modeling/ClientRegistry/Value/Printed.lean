import ClientRegistry.Text.Quoted
import ClientRegistry.Time.Iso
import ClientRegistry.Value.Basic

/-! The printed form of a value, which messages and records show. Sets with two or more members
have no printed order of their own: `isOrdered` tells the values whose text is determined. -/

namespace ClientRegistry

def TokenKind.typeName : TokenKind → String
  | .grantType => "AuthorizationGrantType"
  | .authMethod => "ClientAuthenticationMethod"

def BagKind.typeName : BagKind → String
  | .client => "ClientSettings"
  | .token => "TokenSettings"

namespace Printed

def commaSeparated : List (List Char) → List Char
  | [] => []
  | [x] => x
  | x :: rest => x ++ ',' :: ' ' :: commaSeparated rest

def intChars (n : Int) : List Char :=
  if n < 0 then '-' :: RealLayout.digitChars n.natAbs else RealLayout.digitChars n.natAbs

/-- An offset as a span of days and seconds, of which only the days may be negative. -/
def spanText (offset : Int) : List Char :=
  let days := offset / 86400
  let seconds := offset % 86400
  let parts :=
    (if days = 0 then [] else ["days=".toList ++ intChars days])
      ++ (if seconds = 0 then [] else ["seconds=".toList ++ intChars seconds])
  "datetime.timedelta(".toList ++ commaSeparated parts ++ [')']

/-- A zone that was read shows its offset in seconds. -/
def zoneText (z : Zone) : List Char :=
  if z.read then "TzInfo(".toList ++ intChars z.offset ++ [')']
  else if z.offset = 0 then "datetime.timezone.utc".toList
  else "datetime.timezone(".toList ++ spanText z.offset ++ [')']

/-- Seconds and microseconds are left out while they are zero, from the right. -/
def momentText (m : Moment) : List Char :=
  let tail :=
    if m.micro = 0 then (if m.second = 0 then [] else [m.second]) else [m.second, m.micro]
  let fields := ([m.year, m.month, m.day, m.hour, m.minute] ++ tail).map RealLayout.digitChars
  let zone := match m.zone with
    | some z => ["tzinfo=".toList ++ zoneText z]
    | none => []
  "datetime.datetime(".toList ++ commaSeparated (fields ++ zone) ++ [')']

def tokenText (kind : TokenKind) (name : List Char) : List Char :=
  kind.typeName.toList ++ "(value=".toList ++ name ++ [')']

def boolText (b : Bool) : List Char :=
  (if b then "True" else "False").toList

def nullText : List Char :=
  "None".toList

def setText (parts : List (List Char)) : List Char :=
  if parts.isEmpty then "set()".toList else '{' :: commaSeparated parts ++ ['}']

def frozenText (parts : List (List Char)) : List Char :=
  if parts.isEmpty then "frozenset()".toList
  else "frozenset(\x7b".toList ++ commaSeparated parts ++ ['}', ')']

def tupleText : List (List Char) → List Char
  | [x] => '(' :: x ++ [',', ')']
  | parts => '(' :: commaSeparated parts ++ [')']

def bagText (kind : BagKind) (parts : List (List Char)) : List Char :=
  kind.typeName.toList ++ "(settings=\x7b".toList ++ commaSeparated parts ++ ['}', ')']

end Printed

namespace Value

open Printed

mutual

def printed : Value → List Char
  | null => nullText
  | bool b => boolText b
  | int n => intChars n
  | real x => x.write .quoted
  | text s => Text.quoted s.toList
  | bytes bs => Text.quotedBytes bs
  | moment m => momentText m
  | token kind name => tokenText kind name.printed
  | bag kind options => bagText kind (printedEntries options)
  | list xs => '[' :: commaSeparated (printedList xs) ++ [']']
  | tuple xs => tupleText (printedList xs)
  | set xs => setText (printedList xs)
  | frozen xs => frozenText (printedList xs)
  | dict es => '{' :: commaSeparated (printedEntries es) ++ ['}']

def printedList : List Value → List (List Char)
  | [] => []
  | x :: xs => x.printed :: printedList xs

def printedEntries : List (Value × Value) → List (List Char)
  | [] => []
  | (k, v) :: es => (k.printed ++ ':' :: ' ' :: v.printed) :: printedEntries es

end

mutual

/-- Whether every set in a value has at most one member. -/
def isOrdered : Value → Bool
  | token _ name => name.isOrdered
  | bag _ options => entriesOrdered options
  | list xs => listOrdered xs
  | tuple xs => listOrdered xs
  | set xs => xs.length ≤ 1 && listOrdered xs
  | frozen xs => xs.length ≤ 1 && listOrdered xs
  | dict es => entriesOrdered es
  | _ => true

def listOrdered : List Value → Bool
  | [] => true
  | x :: xs => x.isOrdered && listOrdered xs

def entriesOrdered : List (Value × Value) → Bool
  | [] => true
  | (k, v) :: es => k.isOrdered && v.isOrdered && entriesOrdered es

end

/-- The form that stands in running text: texts and token values plain, moments with a space
between date and time, all else printed. -/
def displayed : Value → List Char
  | text s => s.toList
  | token _ name => name.displayed
  | moment m => m.plainText ' '
  | v => v.printed

end Value

end ClientRegistry
