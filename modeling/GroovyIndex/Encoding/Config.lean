import GroovyIndex.Config
import GroovyIndex.Json.Codec

/-!
# JSON form of the configuration

Every setting may be left out; a record written as an array may stop early.
-/

namespace GroovyIndex

instance : Codec LoggingConfig where
  encode c := .ofFields [("filter", encode c.filter), ("directory", encode c.directory)]
  decode? levels j := do
    let (levels, [filter, directory]) ← j.openRecord? ["filter", "directory"] levels | none
    let default : LoggingConfig := {}
    return ⟨← Json.defaulting default.filter levels filter,
      ← Json.defaulting default.directory levels directory⟩

instance : Codec ServiceConfig where
  encode c := .ofFields [
    ("synthesize_accessors", encode c.synthesizeAccessors),
    ("builtin_types", encode c.builtinTypes), ("logging", encode c.logging)]
  decode? levels j := do
    let (levels, [synthesizeAccessors, builtinTypes, logging]) ←
      j.openRecord? ["synthesize_accessors", "builtin_types", "logging"] levels | none
    let default : ServiceConfig := {}
    return ⟨← Json.defaulting default.synthesizeAccessors levels synthesizeAccessors,
      ← Json.defaulting default.builtinTypes levels builtinTypes,
      ← Json.defaulting default.logging levels logging⟩

/-- What stands at the path of a configuration file. -/
inductive ConfigFile where
  | absent
  | directory
  | content (bytes : ByteArray)

namespace ServiceConfig

/-- Reads a configuration from its text. -/
def ofText (text : String) : Except ServiceError ServiceConfig :=
  match Json.decodeText? text with
  | some config => .ok config
  | none => .error .json

/-- Reads a configuration file. Without a file the defaults hold; a directory or a file that is no
text cannot be read. -/
def load : ConfigFile → Except ServiceError ServiceConfig
  | .absent => .ok {}
  | .directory => .error .io
  | .content bytes =>
    match String.fromUTF8? bytes with
    | some text => ofText text
    | none => .error .io

end ServiceConfig

end GroovyIndex
