import StoreMarkup.Service.Route

/-! What the service answers to a request. -/
namespace StoreMarkup.Service

/-- Why a request ends without a response. -/
inductive ServiceError where
  | location (error : LocationError)
  /-- A header has a line end in its value. -/
  | brokenHeader
  /-- The size of the body cannot be compared with the limit. -/
  | incomparableSize (typeName : String)
  /-- The body is JSON and no object. -/
  | noFields (typeName : String)
deriving DecidableEq, Repr

def ServiceError.message : ServiceError → String
  | location error => error.message
  | brokenHeader => "Header values must not contain newline characters."
  | incomparableSize typeName => comparisonMessage typeName
  | noFields typeName => s!"'{typeName}' object has no attribute 'get'"

def sampleTemplate : Text := "<isif condition=\"$\x7btrue\x7d\">ok</isif>".toList

/-- Whether a template without fault is parsed without complaint. -/
def healthResponse : Response :=
  let state := fun (status message : String) =>
    [("status", Json.string status), ("message", Json.string message)]
  match (Document.parse {} (some "healthcheck") sampleTemplate).check false with
  | .ok () => ⟨200, some (.object (state "healthy" "API is online and the parser is working"))⟩
  | .error e =>
    ⟨503, some (.object (state "unhealthy" "API is online but the parser failed" ++
      [("error", .string e.describe)]))⟩

/-- The response of an endpoint to the JSON value it is given. No value and what counts as false are
taken for an object without fields. -/
def endpointResponse (c : Configuration) (e : Endpoint) (given : Option Json) :
    Except ServiceError Response :=
  match (given.filter Json.isTrue).getD (.object []) with
  | .object fields => .ok (e.answer c (.object fields))
  | v => .error (.noFields v.typeName)

/-- The response to the body of a request. One that is too large counts only if it is read. -/
def bodyResponse (c : Configuration) (e : Endpoint) (r : Request) : Except ServiceError Response :=
  match if r.hasJson then r.isTooLarge c.bodyLimit else .ok false with
  | .error typeName => .error (.incomparableSize typeName)
  | .ok true => .ok ⟨413, none⟩
  | .ok false => endpointResponse c e r.json?

/-- The response of a resource to a method that it answers to. -/
def resourceResponse (c : Configuration) (r : Request) (resource : Resource) :
    Except ServiceError Response :=
  match r.method, resource with
  | .options, _ => .ok ⟨200, none⟩
  | _, .file _ => .ok ⟨404, none⟩
  | .head, .health => .ok ⟨healthResponse.status, none⟩
  | _, .health => .ok healthResponse
  | _, .endpoint e => bodyResponse c e r

/-- What is sent back: the response and, if the request has an origin, the one it is open to. -/
structure Reply where
  response : Response
  openTo : Option Text := none
deriving Repr

/-- The origin that a response is open to. Only what lies under one path is open to any. -/
def allowedOrigin (c : Configuration) (r : Request) (path : Text) : Option Text :=
  if "/api".toList.isPrefixOf (unescape (rootedPath path)) then r.origin.bind (openTo c.origins)
  else none

/-- The response to a request for a path. -/
def pathResponse (c : Configuration) (r : Request) (path : Text) : Except ServiceError Response :=
  match Route.ofPath r.method path with
  | .found resource => resourceResponse c r resource
  | .moved => .ok ⟨308, none⟩
  | .otherMethod => .ok ⟨405, none⟩
  | .unknown => .ok ⟨404, none⟩

def respond (c : Configuration) (r : Request) : Except ServiceError Reply :=
  match askedPath r.location with
  | .error e => .error (.location e)
  | .ok path =>
    if r.hasBrokenHeader then .error .brokenHeader
    else (pathResponse c r path).map fun response => { response, openTo := allowedOrigin c r path }

end StoreMarkup.Service
