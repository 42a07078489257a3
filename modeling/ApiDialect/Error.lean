import ApiDialect.Dialect
import ApiDialect.Files.Basic
import ApiDialect.Settings.Fault

/-!
Why a conversion fails, and what it reports when it does not. Each cause has one wording.
-/

namespace ApiDialect

/-- What is wrong with a security scheme that needs a flow. -/
inductive FlowFault where
  | missing
  | notMapping
  | empty
  deriving DecidableEq

def FlowFault.message : FlowFault → String
  | .missing => "oauth2 scheme has no flows"
  | .notMapping => "flows must be a mapping"
  | .empty => "oauth2 scheme declares no flow"

inductive Error where
  | unsupportedReference (reference : String)
  | unresolvedReference (reference : String)
  | unreadableReference (path : String) (fault : FileFault)
  | unreadableSource (path : String) (fault : FileFault)
  | malformed (origin : String)
  | invalidSecurityScheme (name : String) (fault : FlowFault)
  | nestingExceeded (path : String) (limit : Nat)
  | unknownDialect (name : String)
  | otherDialect (origin : String) (dialect : Dialect)
  | unsupportedVersion (dialect : Dialect) (version : String)
  | noConversion (source target : Dialect)
  | fileFault (fault : FileFault)
  | invalidSettings (fault : SettingsFault)
  deriving DecidableEq

def Error.message : Error → String
  | .unsupportedReference reference =>
    "Unsupported $ref " ++ reference ++
      ": remote references and relative file references without a source directory are not supported"
  | .unresolvedReference reference => "Unresolved $ref: " ++ reference
  | .unreadableReference path fault =>
    "Could not read $ref target " ++ path ++ ": " ++ fault.message
  | .unreadableSource path fault => "Could not read " ++ path ++ ": " ++ fault.message
  | .malformed origin => "Could not parse " ++ origin ++ " as JSON or YAML"
  | .invalidSecurityScheme name fault => "Invalid security scheme " ++ name ++ ": " ++ fault.message
  | .nestingExceeded path limit =>
    "Recursion depth exceeded at " ++ path ++ " (max: " ++ toString limit ++ ")"
  | .unknownDialect name => "Unknown format " ++ name
  | .otherDialect origin dialect => origin ++ " is not valid " ++ dialect.name
  | .unsupportedVersion dialect version => "Unsupported " ++ dialect.name ++ " version: " ++ version
  | .noConversion source target => "Unable to convert from " ++ source.name ++ " to " ++ target.name
  | .fileFault fault => "IO error: " ++ fault.message
  | .invalidSettings fault => "JSON error: " ++ fault.message

/-- Entries of a discriminator's mapping that leave no mark on a schema. -/
inductive Warning where
  | unresolvedMapping (payload target : String)
  | invalidMapping (payload : String)
  deriving DecidableEq

def Warning.message : Warning → String
  | .unresolvedMapping payload target =>
    "Unable to resolve " ++ target ++ " for " ++ payload ++ " in discriminator.mapping"
  | .invalidMapping payload =>
    "Ignoring non-string target for " ++ payload ++ " in discriminator.mapping"

end ApiDialect
