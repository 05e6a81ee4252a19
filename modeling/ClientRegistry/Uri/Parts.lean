import ClientRegistry.Uri.Address

/-! The five parts of a URI, cut apart as leniently as the delimiters allow. -/

namespace ClientRegistry.Uri

/-- A part that is absent and a part that is empty are both the empty text. -/
structure Parts where
  scheme : List Char
  authority : List Char
  path : List Char
  query : List Char
  fragment : List Char
  deriving DecidableEq

/-- Control characters and spaces in front of a URI are not part of it. -/
def isLeadingJunk (c : Char) : Bool :=
  c.toNat ≤ 0x20

def isLineBreakOrTab (c : Char) : Bool :=
  c == '\t' || c == '\r' || c == '\n'

/-- The text that is cut apart: without leading junk, and without tabs and line breaks. -/
def cleaned (cs : List Char) : List Char :=
  (cs.dropWhile isLeadingJunk).filter fun c => !isLineBreakOrTab c

/-- A scheme starts with a letter; its lower-case form and the text after the colon. -/
def splitScheme (cs : List Char) : List Char × List Char :=
  match Text.cut ':' cs with
  | (before, some rest) =>
    if (match before with
      | c :: _ => isLetter c && before.all isSchemeChar
      | [] => false)
    then (before.map lowerAscii, rest)
    else ([], cs)
  | (_, none) => ([], cs)

def isAuthorityEnd (c : Char) : Bool :=
  c == '/' || c == '?' || c == '#'

/-- The authority after a double slash, and the rest. -/
def splitAuthority : List Char → List Char × List Char
  | '/' :: '/' :: rest =>
    (rest.takeWhile fun c => !isAuthorityEnd c, rest.dropWhile fun c => !isAuthorityEnd c)
  | cs => ([], cs)

/-- What follows the last user information mark. -/
def hostPort (authority : List Char) : List Char :=
  (authority.reverse.takeWhile (· != '@')).reverse

/-- The host of an authority with brackets: what the brackets hold, with nothing in front of
them and at most a port behind them. If the brackets belong to the user information, the host
is what stands before the port. -/
def literalHost? (authority : List Char) : Option (List Char) :=
  match Text.cut '[' (hostPort authority) with
  | ([], some bracketed) =>
    let (inner, behind) := Text.cut ']' bracketed
    match behind.getD [] with
    | [] => some inner
    | ':' :: _ => some inner
    | _ => none
  | (_, some _) => none
  | (_, none) => some (Text.cut ':' (hostPort authority)).1

/-- Brackets come in both kinds or not at all, and with brackets the host is an address
literal. -/
def bracketsOk (authority : List Char) : Bool :=
  match authority.contains '[', authority.contains ']' with
  | false, false => true
  | true, true => match literalHost? authority with
    | some host => isAddressLiteral host
    | none => false
  | _, _ => false

/-- Characters whose compatibility form contains a delimiter of an authority. -/
def disguised : List Nat :=
  [0x2047, 0x2048, 0x2049, 0x2100, 0x2101, 0x2105, 0x2106, 0x2A74, 0xFE13, 0xFE16, 0xFE55,
    0xFE56, 0xFE5F, 0xFE6B, 0xFF03, 0xFF0F, 0xFF1A, 0xFF1F, 0xFF20]

/-- No character of the authority passes for a delimiter in its compatibility form. -/
def plainlyDelimited (authority : List Char) : Bool :=
  !authority.any fun c => disguised.contains c.toNat

/-- The parts of a URI, unless its authority cannot be read. -/
def Parts.of? (text : List Char) : Option Parts :=
  let (scheme, rest) := splitScheme (cleaned text)
  let (authority, rest) := splitAuthority rest
  if bracketsOk authority && plainlyDelimited authority then
    let (rest, fragment) := Text.cut '#' rest
    let (path, query) := Text.cut '?' rest
    some ⟨scheme, authority, path, query.getD [], fragment.getD []⟩
  else none

/-- The text of the port, after the bracketed host or after the first colon. -/
def portText (authority : List Char) : List Char :=
  let host := hostPort authority
  match Text.cut '[' host with
  | (_, some bracketed) => (Text.cut ':' ((Text.cut ']' bracketed).2.getD [])).2.getD []
  | (_, none) => (Text.cut ':' host).2.getD []

/-- A port is absent, or a decimal number of at most 4300 digits and of at most 65535. -/
def portOk (authority : List Char) : Bool :=
  let digits := portText authority
  digits.all isDigit && digits.length ≤ 4300 && Numeral.value digits ≤ 65535

end ClientRegistry.Uri
