import ApiDialect.CommandLine.Word
import ApiDialect.Dialect
import ApiDialect.Render
import ApiDialect.Text.Quoted

/-!
What a command line says. Every option is given once at most, and the environment speaks where the
command line is silent.
-/

namespace ApiDialect
namespace CommandLine

/-- Names that are none of the choices of an option. -/
inductive UnknownName where
  | markup (name : String)
  | order (name : String)
  deriving DecidableEq

def UnknownName.message : UnknownName → String
  | .markup name => "unknown syntax " ++ Quoted.quote name ++ ", expected json or yaml"
  | .order name => "unknown order " ++ Quoted.quote name ++ ", expected openapi, alpha or false"

def readMarkup (name : String) : Except UnknownName Markup :=
  (Markup.ofName? name).elim (.error (.markup name)) .ok

def readOrder (name : String) : Except UnknownName KeyOrder :=
  (KeyOrder.ofName? name).elim (.error (.order name)) .ok

structure Options where
  text : Bool := false
  fillMissing : Bool := false
  verbose : Bool := false
  source : Option Dialect := none
  target : Option Dialect := none
  markup : Option Markup := none
  order : Option KeyOrder := none
  output : Option String := none
  config : Option String := none
  deriving DecidableEq

/-- Why there is nothing to convert: the command line makes no sense, or asks for something else. -/
inductive Halt where
  | misuse
  | help
  | version
  deriving DecidableEq

namespace Options

def isSet (options : Options) : Key → Bool
  | .source => options.source.isSome
  | .target => options.target.isSome
  | .markup => options.markup.isSome
  | .order => options.order.isSome
  | .output => options.output.isSome
  | .config => options.config.isSome

private def chosen {α : Type} : Option α → Except Halt (Option α)
  | some choice => .ok (some choice)
  | none => .error .misuse

private def path (value : String) : Except Halt (Option String) :=
  chosen (if value.isEmpty then none else some value)

private def assign (options : Options) (value : String) : Key → Except Halt Options
  | .source => return { options with source := ← chosen (Dialect.ofName? value) }
  | .target => return { options with target := ← chosen (Dialect.ofName? value) }
  | .markup => return { options with markup := ← chosen (readMarkup value).toOption }
  | .order => return { options with order := ← chosen (readOrder value).toOption }
  | .output => return { options with output := ← path value }
  | .config => return { options with config := ← path value }

/-- Gives an option its value, which it must not have yet. -/
def set (options : Options) (key : Key) (value : String) : Except Halt Options :=
  if options.isSet key then .error .misuse else options.assign value key

def turnOn (options : Options) : Switch → Except Halt Options
  | .text => if options.text then .error .misuse else .ok { options with text := true }
  | .fillMissing =>
    if options.fillMissing then .error .misuse else .ok { options with fillMissing := true }
  | .verbose => if options.verbose then .error .misuse else .ok { options with verbose := true }
  | .help => .error .help
  | .version => .error .version

private def complete (environment : String → Option String) (options : Options) (key : Key) :
    Except Halt Options :=
  match key.inEnvironment?.bind environment with
  | some value => if options.isSet key then .ok options else options.assign value key
  | none => .ok options

/-- Takes from the environment what the command line has left open. -/
def fromEnvironment (environment : String → Option String) (options : Options) :
    Except Halt Options :=
  Key.all.foldlM (complete environment) options

end Options

/-- How far a command line has been read. -/
structure Progress where
  options : Options := {}
  input : Option String := none
  awaited : Option Key := none
  behindSeparator : Bool := false

namespace Progress

/-- There is a single input. -/
def place (progress : Progress) (text : String) : Except Halt Progress :=
  match progress.input with
  | none => .ok { progress with input := some text }
  | some _ => .error .misuse

private def follow (progress : Progress) : Item → Except Halt Progress
  | .switch switch => return { progress with options := ← progress.options.turnOn switch }
  | .value key value => return { progress with options := ← progress.options.set key value }
  | .awaited key => .ok { progress with awaited := some key }
  | .unknown => .error .misuse

private def step (progress : Progress) (text : String) : Except Halt Progress :=
  if progress.behindSeparator then progress.place text
  else
    match Word.read text, progress.awaited with
    | .plain value, some key => do
      return { progress with options := ← progress.options.set key value, awaited := none }
    | _, some _ => .error .misuse
    | .separator, none => .ok { progress with behindSeparator := true }
    | .plain text, none => progress.place text
    | .items items, none => items.foldlM follow progress

end Progress

structure Arguments where
  input : String
  options : Options
  deriving DecidableEq

namespace Arguments

/-- Reads the words behind the program's name. -/
def read (environment : String → Option String) (words : List String) :
    Except Halt Arguments := do
  let progress ← words.foldlM Progress.step {}
  if progress.awaited.isSome then throw .misuse
  let options ← progress.options.fromEnvironment environment
  match progress.input with
  | some input => return ⟨input, options⟩
  | none => throw .misuse

end Arguments
end CommandLine
end ApiDialect
