import StoreMarkup.Service.Limit
import StoreMarkup.Service.Origin
import StoreMarkup.Settings

/-! How the service is set up. -/
namespace StoreMarkup.Service

structure Configuration where
  dialect : Dialect := {}
  /-- The deepest level of elements in an outline. -/
  outlineLimit : Limit := .upTo 100
  /-- The deepest nesting of elements in an exported tree. -/
  exportLimit : Limit := .upTo 200
  /-- The most bytes that a body may have. -/
  bodyLimit : Limit := .upTo (2 * 1024 * 1024)
  /-- The origins that may call the service. -/
  origins : List OriginRule := localOrigins
deriving Repr

namespace Configuration

def ofSettings (s : Settings) : Except OriginError Configuration := do
  return {
    dialect := s.dialect
    outlineLimit := .upTo s.outlineDepth
    exportLimit := .upTo s.exportDepth
    bodyLimit := .upTo s.maxTemplateBytes
    origins := localOrigins ++ (← originRules s.origins) }

/-- The origins that a JSON object gives besides the usual ones. -/
def originsOf (source : Json) : Except OriginError (Option (List OriginRule)) :=
  match source.get? "CORS_ORIGINS" with
  | none => .ok none
  | some (.string list) => (originRules list.toList).map fun rules => some (localOrigins ++ rules)
  | some v => if v.isTrue then .error (.notText v.typeName) else .ok (some localOrigins)

/-- The configuration with the fields that a JSON object gives. -/
def override (c : Configuration) (source : Json) : Except OriginError Configuration := do
  let limit := fun (key : String) (default : Limit) =>
    ((source.get? key).map Limit.ofJson).getD default
  return {
    dialect := c.dialect.override source
    outlineLimit := limit "ISML_OUTLINE_MAX_DEPTH" c.outlineLimit
    exportLimit := limit "ISML_EXPORT_MAX_DEPTH" c.exportLimit
    bodyLimit := limit "MAX_CONTENT_LENGTH" c.bodyLimit
    origins := (← originsOf source).getD c.origins }

end Configuration

end StoreMarkup.Service
