import StoreMarkup.Json.Basic
import StoreMarkup.Text.Blank
import StoreMarkup.Text.Integer
import StoreMarkup.Text.Lowercase
import StoreMarkup.Vocabulary

/-! Settings, taken from variables of the environment or from a JSON object. -/
namespace StoreMarkup

/-- The values of the variables that are set. -/
abbrev Environment := String → Option Text

/-- A value that is not blank. -/
def givenValue (value : Option Text) : Option Text := value.filter fun v => !(trimBlanks v).isEmpty

/-- The words that switch a flag on, in any case. Every other word switches it off. -/
def affirmativeWords : List Text := ["1".toList, "true".toList, "yes".toList, "on".toList]

/-- Reads a switch, where a missing or blank value stands for the default. -/
def flagValue (default : Bool) (value : Option Text) : Bool :=
  match givenValue value with
  | none => default
  | some v => affirmativeWords.contains (lower (trimBlanks v))

/-- Reads a number, where a missing or blank value is none. -/
def integerValue (value : Option Text) : Except IntegerError (Option Int) :=
  match givenValue value with
  | none => .ok none
  | some v => (integer v).map some

/-- What can be set from outside. -/
structure Settings where
  deployment : Text := "development".toList
  debug : Bool := false
  /-- The most bytes that the service takes in one request. -/
  maxTemplateBytes : Int := 2 * 1024 * 1024
  /-- Further origins that may call the service, separated by commas. -/
  origins : Text := []
  logLevel : Text := "INFO".toList
  dialect : Dialect := {}
  /-- The deepest level of elements in an outline. -/
  outlineDepth : Int := 100
  /-- The deepest nesting of elements in an exported tree. -/
  exportDepth : Int := 200
  encoding : Text := "UTF-8".toList
  failOnWarning : Bool := false
  maxWorkers : Option Int := none
deriving DecidableEq, Repr

namespace Settings

/-- The variables that count. -/
def variableNames : List String :=
  ["FLASK_ENV", "ISML_MAX_TEMPLATE_BYTES", "CORS_ORIGINS", "LOG_LEVEL", "ISML_RECOGNIZE_HTML_TAGS",
    "ISML_HASH_EXPRESSIONS", "ISML_OUTLINE_MAX_DEPTH", "ISML_EXPORT_MAX_DEPTH",
    "ISML_TEMPLATE_ENCODING", "ISML_FAIL_ON_WARNING", "ISML_MAX_WORKERS"]

/-- The settings of an environment. Of several numbers that cannot be read, the first is the
error. -/
def load (env : Environment) : Except IntegerError Settings := do
  let defaults : Settings := {}
  let maxTemplateBytes ← integerValue (env "ISML_MAX_TEMPLATE_BYTES")
  let outlineDepth ← integerValue (env "ISML_OUTLINE_MAX_DEPTH")
  let exportDepth ← integerValue (env "ISML_EXPORT_MAX_DEPTH")
  let maxWorkers ← integerValue (env "ISML_MAX_WORKERS")
  return {
    deployment := (env "FLASK_ENV").getD defaults.deployment
    debug := env "FLASK_ENV" == some "development".toList
    maxTemplateBytes := maxTemplateBytes.getD defaults.maxTemplateBytes
    origins := (env "CORS_ORIGINS").getD defaults.origins
    logLevel := (env "LOG_LEVEL").getD defaults.logLevel
    dialect :=
      { htmlTags := flagValue defaults.dialect.htmlTags (env "ISML_RECOGNIZE_HTML_TAGS")
        hashExpressions := flagValue defaults.dialect.hashExpressions
          (env "ISML_HASH_EXPRESSIONS") }
    outlineDepth := outlineDepth.getD defaults.outlineDepth
    exportDepth := exportDepth.getD defaults.exportDepth
    encoding := (env "ISML_TEMPLATE_ENCODING").getD defaults.encoding
    failOnWarning := flagValue defaults.failOnWarning (env "ISML_FAIL_ON_WARNING")
    maxWorkers }

end Settings

/-- The dialect with the features that a JSON object gives: one is off if its field counts as
false. -/
def Dialect.override (d : Dialect) (source : Json) : Dialect :=
  { htmlTags := ((source.get? "ISML_RECOGNIZE_HTML_TAGS").map Json.isTrue).getD d.htmlTags
    hashExpressions :=
      ((source.get? "ISML_HASH_EXPRESSIONS").map Json.isTrue).getD d.hashExpressions }

end StoreMarkup
