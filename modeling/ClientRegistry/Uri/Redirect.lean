import ClientRegistry.Uri.Parts

/-! Redirect URIs: well-formed references of RFC 3986 without a fragment. -/

namespace ClientRegistry.Uri

def hasBracket (cs : List Char) : Bool :=
  cs.any fun c => c == '[' || c == ']'

/-- What is left of a URI after its scheme and colon. -/
def afterScheme (parts : Parts) (text : List Char) : List Char :=
  if parts.scheme.isEmpty then text else text.drop (parts.scheme.length + 1)

/-- A scheme is followed by something other than a fragment. Without a scheme, the first
segment of a path that follows no authority holds no colon. -/
def schemeOk (parts : Parts) (text : List Char) : Bool :=
  if parts.scheme.isEmpty then
    !(parts.authority.isEmpty && ((Text.cut '/' parts.path).1).contains ':')
  else !((Text.cut '#' (afterScheme parts text)).1).isEmpty

/-- A well-formed URI, with or without a fragment. -/
def isWellFormed (text : List Char) : Bool :=
  text.all isUriChar && escapesComplete text
    && (match Parts.of? text with
      | none => false
      | some parts =>
        portOk parts.authority
          && !hasBracket (parts.path ++ parts.query ++ parts.fragment)
          && schemeOk parts text
          && afterScheme parts text != ['/', '/'])

/-- An empty fragment is a fragment. -/
def isRedirect (text : List Char) : Bool :=
  isWellFormed text && !text.contains '#'

end ClientRegistry.Uri
