import ApiDialect.Text.Search

/-!
The words of a command line. Two dashes begin the name of one option, a single dash begins a row of
letters that each stand for an option.
-/

namespace ApiDialect
namespace CommandLine

/-- Options that are on or off. -/
inductive Switch where
  | text
  | fillMissing
  | verbose
  | help
  | version
  deriving DecidableEq

namespace Switch

def all : List Switch := [.text, .fillMissing, .verbose, .help, .version]

def name : Switch → String
  | .text => "text"
  | .fillMissing => "fill-missing"
  | .verbose => "verbose"
  | .help => "help"
  | .version => "version"

def letter? : Switch → Option Char
  | .verbose => some 'v'
  | .help => some 'h'
  | .version => some 'V'
  | .text | .fillMissing => none

end Switch

/-- Options with a value. -/
inductive Key where
  | source
  | target
  | markup
  | order
  | output
  | config
  deriving DecidableEq

namespace Key

def all : List Key := [.source, .target, .markup, .order, .output, .config]

def name : Key → String
  | .source => "from"
  | .target => "to"
  | .markup => "syntax"
  | .order => "order"
  | .output => "output"
  | .config => "config"

def letter? : Key → Option Char
  | .output => some 'o'
  | _ => none

/-- Where a value is looked for when the command line has none. -/
def inEnvironment? : Key → Option String
  | .source => some "OAS_CONVERT_FROM"
  | .target => some "OAS_CONVERT_TO"
  | .config => some "OAS_CONVERT_CONFIG"
  | _ => none

end Key

/-- What a word asks for, one item after the other. -/
inductive Item where
  | switch (switch : Switch)
  | value (key : Key) (value : String)
  | awaited (key : Key)
  | unknown
  deriving DecidableEq

inductive Word where
  | separator
  | plain (text : String)
  | items (items : List Item)
  deriving DecidableEq

namespace Word

private def named (name : String) : Option String → Item
  | none =>
    match Switch.all.find? (·.name = name), Key.all.find? (·.name = name) with
    | some switch, _ => .switch switch
    | none, some key => .awaited key
    | none, none => .unknown
  | some value =>
    match Key.all.find? (·.name = name) with
    | some key => .value key value
    | none => .unknown

private def long (text : String) : Item :=
  match Text.splitOnce? '=' text with
  | some (name, value) => named name (some value)
  | none => named text none

/-- The rest of a row of letters is the value of the first option that takes one. -/
private def letters : List Char → List Item
  | [] => []
  | letter :: rest =>
    match Switch.all.find? (·.letter? = some letter), Key.all.find? (·.letter? = some letter) with
    | some switch, _ => .switch switch :: letters rest
    | none, some key =>
      match rest with
      | [] => [.awaited key]
      | '=' :: value => [.value key (String.ofList value)]
      | value => [.value key (String.ofList value)]
    | none, none => [.unknown]

/-- A single dash is no option. -/
def read (text : String) : Word :=
  match text.toList with
  | ['-', '-'] => .separator
  | '-' :: '-' :: rest => .items [long (String.ofList rest)]
  | ['-'] => .plain text
  | '-' :: rest => .items (letters rest)
  | _ => .plain text

end Word
end CommandLine
end ApiDialect
