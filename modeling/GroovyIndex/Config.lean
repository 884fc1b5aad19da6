import GroovyIndex.Error

/-!
# Configuration

What a user can set. Every setting has a default.
-/

namespace GroovyIndex

/-- What is logged, and where. -/
structure LoggingConfig where
  /-- Which messages are logged. -/
  filter : String := "info"
  /-- The directory of the log files. -/
  directory : Option String := none
  deriving DecidableEq, Repr

namespace LoggingConfig

/-- The path of an entry below a directory. -/
private def below (directory entry : String) : String :=
  if directory.endsWith "/" then directory ++ entry else directory ++ "/" ++ entry

/-- Where logs go when nothing is configured, given the user's home directory. -/
def defaultDirectory (home : String) : String := below home ".groovyscope/logs"

/-- Where logs go. -/
def logDirectory (config : LoggingConfig) (home : String) : String :=
  config.directory.getD (defaultDirectory home)

/-- The filter in force, if `isFilter` tells which texts are filters. One in the environment wins
over the configured one; where neither is a filter, `info` is left. -/
def activeFilter (isFilter : String → Bool) (environment : Option String)
    (config : LoggingConfig) : String :=
  ((environment.toList ++ [config.filter]).find? isFilter).getD "info"

end LoggingConfig

/-- The class names that belong to the language and its library. -/
def defaultBuiltinTypes : List String :=
  ["Object", "String", "GString", "Integer", "Long", "Double", "Float", "Boolean", "BigDecimal",
   "BigInteger", "List", "Map", "Set", "Class", "Closure", "Script", "Binding", "Exception",
   "RuntimeException"]

/-- The settings of the service. -/
structure ServiceConfig where
  /-- Renaming a field or property also renames its accessors. -/
  synthesizeAccessors : Bool := true
  /-- Class names that are never renamed. -/
  builtinTypes : List String := defaultBuiltinTypes
  logging : LoggingConfig := {}
  deriving DecidableEq, Repr

namespace ServiceConfig

/-- The class is not the user's to rename. -/
def isBuiltinType (config : ServiceConfig) (name : String) : Bool :=
  config.builtinTypes.contains name

end ServiceConfig

end GroovyIndex
