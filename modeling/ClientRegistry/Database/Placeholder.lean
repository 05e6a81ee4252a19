import ClientRegistry.Configuration

/-! The URL of schema changes. It drops the asynchronous driver and passes through a template: a
doubled percent sign is one, and `%(name)s` stands for an option of the configuration. -/

namespace ClientRegistry.Database

def asyncDriver : List Char := "postgresql+asyncpg".toList

def syncDriver : List Char := "postgresql".toList

/-- Every occurrence of a non-empty text replaced, from the left. The first argument bounds the
steps. -/
def replaceFrom (old new : List Char) : Nat → List Char → List Char
  | 0, cs => cs
  | _, [] => []
  | fuel + 1, c :: cs =>
    if old.isPrefixOf (c :: cs) then new ++ replaceFrom old new fuel ((c :: cs).drop old.length)
    else c :: replaceFrom old new fuel cs

def replaceAll (old new cs : List Char) : List Char :=
  replaceFrom old new cs.length cs

/-- The name in a reference `%(name)s` at the start of a text, and the rest after it. -/
def reference? : List Char → Option (List Char × List Char)
  | '%' :: '(' :: rest =>
    match rest.takeWhile (· != ')'), rest.dropWhile (· != ')') with
    | c :: name, ')' :: 's' :: rest' => some (c :: name, rest')
    | _, _ => none
  | _ => none

def dropReferences : Nat → List Char → List Char
  | 0, cs => cs
  | _, [] => []
  | fuel + 1, c :: cs =>
    match reference? (c :: cs) with
    | some (_, rest) => dropReferences fuel rest
    | none => c :: dropReferences fuel cs

/-- What is left of a template after its doubled marks and its references; a mark in it stands
alone. -/
def plainPart (cs : List Char) : List Char :=
  let undoubled := replaceAll ['%', '%'] [] cs
  dropReferences undoubled.length undoubled

/-- A template is kept only if no mark in it stands alone. -/
def checkTemplate (cs : List Char) : Except Fault Unit :=
  let plain := plainPart cs
  if plain.contains '%' then
    .error (.badInterpolation (String.ofList cs) (plain.takeWhile (· != '%')).length)
  else .ok ()

/-- What a reference can stand for. The URL may not stand in itself. -/
inductive Referent where
  | text (cs : List Char)
  | itself
  | missing

/-- The options that a reference can name, in any letter case. -/
def referent (name : List Char) : Referent :=
  match String.ofList (Text.lower name) with
  | "script_location" => .text "alembic".toList
  | "prepend_sys_path" => .text ['.']
  | "here" => .text ['.']
  | "sqlalchemy.url" => .itself
  | _ => .missing

/-- The text of a template. The first argument bounds the steps. -/
def expandFrom : Nat → List Char → Except Fault (List Char)
  | 0, cs => .ok cs
  | _, [] => .ok []
  | fuel + 1, '%' :: cs =>
    match cs with
    | '%' :: rest => (expandFrom fuel rest).map ('%' :: ·)
    | _ => match reference? ('%' :: cs) with
      | none => .error .badReference
      | some (name, rest) => match referent name with
        | .missing => .error .missingReference
        | .itself => .error .endlessReference
        | .text value => (expandFrom fuel rest).map (value ++ ·)
  | fuel + 1, c :: cs => (expandFrom fuel cs).map (c :: ·)

def expand (cs : List Char) : Except Fault (List Char) :=
  expandFrom cs.length cs

/-- The URL of schema changes if none is configured. -/
def defaultUrl : List Char := "postgresql://localhost/oauth_registry".toList

/-- The URL that schema changes connect to. -/
def migrationUrl (c : Configuration) : Except Fault (List Char) :=
  match c.databaseUrl with
  | none => .ok defaultUrl
  | some url => do
    let template := replaceAll asyncDriver syncDriver url.toList
    checkTemplate template
    expand template

example : expand ['a', '%', '%', 'b'] = .ok ['a', '%', 'b'] := by rfl

end ClientRegistry.Database
