import ApiDialect.Json.Printer
import ApiDialect.KeyOrder
import ApiDialect.Yaml.Printer

/-!
Documents as text: the keys are put in order, then the tree is printed.
-/

namespace ApiDialect

inductive Markup where
  | json
  | yaml
  deriving DecidableEq, Inhabited

namespace Markup

def all : List Markup := [.json, .yaml]

def name : Markup → String
  | .json => "json"
  | .yaml => "yaml"

def ofName? (name : String) : Option Markup :=
  all.find? (·.name = name)

theorem ofName?_name (markup : Markup) : ofName? markup.name = some markup := by
  cases markup <;> decide

def print : Markup → Value → String
  | .json, value => Json.pretty 0 value
  | .yaml, value => Yaml.print value

end Markup

structure Layout where
  markup : Markup
  order : KeyOrder
  deriving DecidableEq, Inhabited

def render (layout : Layout) (value : Value) : String :=
  layout.markup.print (layout.order.sortKeys value)

end ApiDialect
