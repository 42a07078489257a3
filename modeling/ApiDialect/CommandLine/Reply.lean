import ApiDialect.CommandLine.Arguments
import ApiDialect.Pipeline
import ApiDialect.Text.Blank

/-!
What the program does with a command line, up to the point where something is printed or written.
-/

namespace ApiDialect

/-- Options that are given replace what the settings say. -/
def Settings.override (settings : Settings) (options : CommandLine.Options) : Settings :=
  { source := options.source.getD settings.source
    target := options.target.getD settings.target
    layout :=
      ⟨options.markup.getD settings.layout.markup, options.order.getD settings.layout.order⟩
    fillMissing := options.fillMissing || settings.fillMissing
    limit := settings.limit }

namespace CommandLine

inductive Reply where
  | halted (halt : Halt)
  | failed (error : Error)
  | printed (text : String)
  | saved (path text : String)
  deriving DecidableEq

namespace Arguments

def settings (files : Files) (arguments : Arguments) : Except Error Settings := do
  let settings ← (arguments.options.config.map (Settings.load files)).getD (.ok {})
  return settings.override arguments.options

def source (files : Files) (arguments : Arguments) : Source :=
  if arguments.options.text then .text arguments.input else .detect files arguments.input

/-- The text of the converted document, on lines that all end. -/
def text (files : Files) (arguments : Arguments) : Except Error String := do
  let settings ← arguments.settings files
  let converted ← settings.convert .complete files (arguments.source files)
  return Text.trimEnd (settings.render converted) ++ "\n"

end Arguments

/-- Reads a command line and converts what it names. -/
def reply (files : Files) (environment : String → Option String) (words : List String) : Reply :=
  match Arguments.read environment words with
  | .error halt => .halted halt
  | .ok arguments =>
    match arguments.text files, arguments.options.output with
    | .error error, _ => .failed error
    | .ok text, none => .printed text
    | .ok text, some path => .saved path text

namespace Reply

/-- A wrong command line is told apart from a conversion that fails. -/
def exitCode : Reply → UInt32
  | .halted .misuse => 2
  | .failed _ => 1
  | _ => 0

end Reply

def versionLine : String := "oas-convert 0.1.0\n"

/-- How a failure is told. -/
def complaint (message : String) : String := "Error: " ++ message

end CommandLine
end ApiDialect
