/-!
Request targets: what follows the authority in a URI. A target is a path and perhaps a query; the
fragment after them is not sent.
-/

namespace GrpcContract

namespace Target

/-- Whether a character may stand in a path. Beyond ASCII all may. -/
def isPathChar (c : Char) : Bool :=
  ' ' < c && c != '<' && c != '>' && c != '\x60'

def isQueryChar (c : Char) : Bool :=
  ' ' < c && c != '"' && c != '<' && c != '>'

/-- Whether a text that begins with a slash is a target. A fragment is not looked at. -/
def isValid (target : String) : Bool :=
  let (path, rest) := target.toList.span fun c => c != '?' && c != '#'
  path.all isPathChar && (rest.takeWhile (· != '#')).all isQueryChar

end Target

/-- The path of a request target: all of it up to a query. A target with a scheme has its path
after the authority, and one that is only an authority has none. -/
def targetPath (target : String) : String :=
  let upToQuery (cs : List Char) := cs.takeWhile fun c => c != '?' && c != '#'
  let rec afterScheme : List Char → Option (List Char)
    | ':' :: '/' :: '/' :: rest => some (rest.dropWhile fun c => c != '/' && c != '?' && c != '#')
    | _ :: rest => afterScheme rest
    | [] => none
  match target.toList with
  | '/' :: _ => String.ofList (upToQuery target.toList)
  | ['*'] => "*"
  | cs =>
    match afterScheme cs with
    | some rest => if (upToQuery rest).isEmpty then "/" else String.ofList (upToQuery rest)
    | none => ""

end GrpcContract
