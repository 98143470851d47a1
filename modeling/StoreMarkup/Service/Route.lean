import StoreMarkup.Service.Endpoint

/-! Which resource a path leads to. -/
namespace StoreMarkup.Service

/-- What a path stands for. -/
inductive Resource where
  | health
  | endpoint (endpoint : Endpoint)
  /-- A file of the service. There are none. -/
  | file (name : Text)
deriving DecidableEq, Repr

/-- Where a request leads to. -/
inductive Route where
  | found (resource : Resource)
  /-- The resource has a path with fewer slashes. -/
  | moved
  | otherMethod
  | unknown
deriving DecidableEq, Repr

namespace Resource

def fixedPaths : List (Text × Resource) :=
  [("/api/health".toList, health), ("/api/v1/isml/validate".toList, endpoint .validate),
    ("/api/v1/isml/parse".toList, endpoint .parse)]

/-- The name of a file starts with no slash and has no line end after its first character. -/
def fileOfPath? (path : Text) : Option Resource :=
  let folder := "/static/".toList
  if folder.isPrefixOf path then
    match path.drop folder.length with
    | [] => none
    | c :: rest => if c = '/' || rest.contains '\n' then none else some (file (c :: rest))
  else none

def ofPath? (path : Text) : Option Resource := (fixedPaths.lookup path).or (fileOfPath? path)

/-- Whether a resource answers to a method. -/
def answersTo (method : Method) : Resource → Bool
  | health | file _ => method == .get || method == .head || method == .options
  | endpoint _ => method == .post || method == .options

end Resource

/-- The path with one slash for each pair of slashes. -/
def mergeSlashes : Text → Text
  | '/' :: '/' :: rest => '/' :: mergeSlashes rest
  | c :: rest => c :: mergeSlashes rest
  | [] => []

/-- The path as it is compared: it starts with one slash. -/
def rootedPath (path : Text) : Text := '/' :: path.dropWhile (· == '/')

/-- Where a path leads to. A path that leads nowhere is tried again with fewer slashes. -/
def Route.ofPath (method : Method) (path : Text) : Route :=
  if path.isEmpty then unknown
  else
    let given := Resource.ofPath? (rootedPath path)
    let merged := Resource.ofPath? (mergeSlashes (rootedPath path))
    match given.filter (·.answersTo method) with
    | some resource => found resource
    | none =>
      if merged.any (·.answersTo method) then moved
      else if given.isSome || merged.isSome then otherMethod
      else unknown

end StoreMarkup.Service
