import ClientRegistry.Value.Printed

/-! Digests: what the hash of a value depends on. Values that are the same have agreeing digests;
so do some that are not, such as a list and a tuple with the same items, or the two tokens of
one name. -/

namespace ClientRegistry

/-- `sequence` keeps the order of its parts and `bunch` only their number. -/
inductive Digest where
  | nothing
  | number (n : Int)
  | buffer (octets : List Nat)
  | marked (mark : Nat)
  | sequence (parts : List Digest)
  | bunch (parts : List Digest)
  deriving Inhabited

namespace Digest

mutual

def agree : Digest → Digest → Bool
  | nothing, nothing => true
  | number m, number n => m == n
  | buffer a, buffer b => a == b
  | marked a, marked b => a == b
  | sequence ds, sequence es => agreeList ds es
  | bunch ds, bunch es => agreeBunch ds es
  | _, _ => false

def agreeList : List Digest → List Digest → Bool
  | [], [] => true
  | d :: ds, e :: es => d.agree e && agreeList ds es
  | _, _ => false

/-- Pairs each part with a part of the other bunch that agrees with it. -/
def agreeBunch : List Digest → List Digest → Bool
  | [], es => es.isEmpty
  | d :: ds, es =>
    match es.findIdx? (fun e => d.agree e) with
    | some i => agreeBunch ds (es.eraseIdx i)
    | none => false

end

/-- Numbers are reduced modulo this prime. -/
def modulus : Nat := twoTo 61 - 1

/-- A signed residue; minus one is not used and stands for minus two. -/
def ofResidue (negative : Bool) (r : Nat) : Digest :=
  let n := Binary64.negated negative r
  number (if n = -1 then -2 else n)

def ofInt (n : Int) : Digest :=
  ofResidue (n < 0) (n.natAbs % modulus)

/-- Doubles that are whole have the digest of the integer; others that of `m · 2^e` modulo the
prime, of which two is a root of unity of order 61. -/
def ofReal : Binary64 → Digest
  | .finite negative m e => ofResidue negative (m % modulus * twoTo (e % 61).toNat % modulus)
  | .infinite negative => number (if negative then -314159 else 314159)
  | .nan mark => marked mark

/-- An empty buffer has the digest of zero. -/
def ofOctets (octets : List Nat) : Digest :=
  if octets.isEmpty then number 0 else buffer octets

/-- The low `width` octets of a number, lowest first. -/
def lowOctets : Nat → Nat → List Nat
  | 0, _ => []
  | width + 1, n => n % 256 :: lowOctets width (n / 256)

/-- A text is stored with one, two or four octets a character, as few as its characters need. -/
def ofText (cs : List Char) : Digest :=
  let width :=
    if cs.all fun c => c.toNat < 0x100 then 1
    else if cs.all fun c => c.toNat < 0x10000 then 2
    else 4
  ofOctets (cs.flatMap fun c => lowOctets width c.toNat)

/-- With an offset, the days, seconds and microseconds of universal time; without, the fields. -/
def ofMoment (m : Moment) : Digest :=
  match m.zone with
  | none =>
    buffer ([m.year / 256, m.year % 256, m.month, m.day, m.hour, m.minute, m.second]
      ++ (lowOctets 3 m.micro).reverse)
  | some z =>
    let seconds := m.localSeconds - z.offset
    sequence [ofInt (seconds / 86400), ofInt (seconds % 86400), ofInt m.micro]

end Digest

namespace Value

open Digest

mutual

/-- The digest of a value. Lists are taken as tuples, and dictionaries and sets as bunches. -/
def digest : Value → Digest
  | null => nothing
  | bool b => ofInt (if b then 1 else 0)
  | int n => ofInt n
  | real x => ofReal x
  | text s => ofText s.toList
  | bytes bs => ofOctets (bs.map UInt8.toNat)
  | moment m => ofMoment m
  | token _ name => sequence [name.digest]
  | bag kind options =>
    sequence [ofText kind.typeName.toList, bunch (digestEntries options)]
  | list xs => sequence (digestList xs)
  | tuple xs => sequence (digestList xs)
  | set xs => bunch (digestList xs)
  | frozen xs => bunch (digestList xs)
  | dict es => bunch (digestEntries es)

def digestList : List Value → List Digest
  | [] => []
  | x :: xs => x.digest :: digestList xs

def digestEntries : List (Value × Value) → List Digest
  | [] => []
  | (k, v) :: es => sequence [k.digest, v.digest] :: digestEntries es

end

end Value

end ClientRegistry
