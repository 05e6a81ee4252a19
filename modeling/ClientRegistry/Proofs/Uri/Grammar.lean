import ClientRegistry.Uri.Chars
import Mathlib.Computability.Language

/-! The grammar of URI references, after appendix A of RFC 3986 and rule by rule, without the
fragment. A visible character outside ASCII may stand wherever an unreserved one may. The rules
make no use of the classes and the cuts that the checks of a redirect URI are made of. -/

open scoped Computability

namespace ClientRegistry.Uri.Grammar

def word (w : List Char) : Language Char := {w}

def anyOf (cs : List Char) : Language Char := {w | ∃ c ∈ cs, w = [c]}

def range (first final : Char) : Language Char := {w | ∃ c, first ≤ c ∧ c ≤ final ∧ w = [c]}

def optional (l : Language Char) : Language Char := 1 + l

def oneOrMore (l : Language Char) : Language Char := l * l∗

def atMost (n : Nat) (l : Language Char) : Language Char := optional l ^ n

def alpha : Language Char := range 'a' 'z' + range 'A' 'Z'

def digit : Language Char := range '0' '9'

def hexdig : Language Char := digit + range 'a' 'f' + range 'A' 'F'

def visible : Language Char := {w | ∃ c, isVisibleOther c = true ∧ w = [c]}

def unreserved : Language Char := alpha + digit + anyOf ['-', '.', '_', '~'] + visible

def pctEncoded : Language Char := word ['%'] * hexdig * hexdig

def subDelims : Language Char :=
  anyOf ['!', '$', '&', '\'', '(', ')', '*', '+', ',', ';', '=']

def pchar : Language Char := unreserved + pctEncoded + subDelims + anyOf [':', '@']

def decOctet : Language Char :=
  digit + range '1' '9' * digit + word ['1'] * digit ^ 2 + word ['2'] * range '0' '4' * digit
    + word ['2', '5'] * range '0' '5'

def ipv4Address : Language Char :=
  decOctet * word ['.'] * decOctet * word ['.'] * decOctet * word ['.'] * decOctet

def h16 : Language Char := hexdig * atMost 3 hexdig

/-- `h16 ":"` -/
def h16Colon : Language Char := h16 * word [':']

def ls32 : Language Char := h16Colon * h16 + ipv4Address

def ipv6Address : Language Char :=
  h16Colon ^ 6 * ls32
    + word [':', ':'] * h16Colon ^ 5 * ls32
    + optional h16 * word [':', ':'] * h16Colon ^ 4 * ls32
    + optional (atMost 1 h16Colon * h16) * word [':', ':'] * h16Colon ^ 3 * ls32
    + optional (atMost 2 h16Colon * h16) * word [':', ':'] * h16Colon ^ 2 * ls32
    + optional (atMost 3 h16Colon * h16) * word [':', ':'] * h16Colon * ls32
    + optional (atMost 4 h16Colon * h16) * word [':', ':'] * ls32
    + optional (atMost 5 h16Colon * h16) * word [':', ':'] * h16
    + optional (atMost 6 h16Colon * h16) * word [':', ':']

def ipvFuture : Language Char :=
  anyOf ['v', 'V'] * oneOrMore hexdig * word ['.']
    * oneOrMore (unreserved + subDelims + word [':'])

def ipLiteral : Language Char := word ['['] * (ipv6Address + ipvFuture) * word [']']

def regName : Language Char := (unreserved + pctEncoded + subDelims)∗

def host : Language Char := ipLiteral + ipv4Address + regName

def port : Language Char := digit∗

def userinfo : Language Char := (unreserved + pctEncoded + subDelims + word [':'])∗

def authority : Language Char :=
  optional (userinfo * word ['@']) * host * optional (word [':'] * port)

def segment : Language Char := pchar∗

def segmentNz : Language Char := oneOrMore pchar

/-- A segment that is not empty and has no colon. -/
def segmentNzNc : Language Char :=
  oneOrMore (unreserved + pctEncoded + subDelims + word ['@'])

def pathAbempty : Language Char := (word ['/'] * segment)∗

def pathAbsolute : Language Char := word ['/'] * optional (segmentNz * (word ['/'] * segment)∗)

def pathNoscheme : Language Char := segmentNzNc * (word ['/'] * segment)∗

def pathRootless : Language Char := segmentNz * (word ['/'] * segment)∗

def pathEmpty : Language Char := 1

def query : Language Char := (pchar + anyOf ['/', '?'])∗

def scheme : Language Char := alpha * (alpha + digit + anyOf ['+', '-', '.'])∗

def hierPart : Language Char :=
  word ['/', '/'] * authority * pathAbempty + pathAbsolute + pathRootless + pathEmpty

def uri : Language Char :=
  scheme * word [':'] * hierPart * optional (word ['?'] * query)

def relativePart : Language Char :=
  word ['/', '/'] * authority * pathAbempty + pathAbsolute + pathNoscheme + pathEmpty

def relativeRef : Language Char := relativePart * optional (word ['?'] * query)

def uriReference : Language Char := uri + relativeRef

end ClientRegistry.Uri.Grammar
