import ApiDialect.Dialect
import ApiDialect.Render
import ApiDialect.Settings.Fault

/-!
What a conversion is asked for. Settings are written as a document whose members are all optional;
a list gives the same settings by position.
-/

namespace ApiDialect

structure Settings where
  source : Dialect := .openApi3
  target : Dialect := .swagger2
  layout : Layout := ⟨.json, .conventional⟩
  fillMissing : Bool := false
  limit : Nat := 64
  deriving DecidableEq

namespace Settings

inductive Field where
  | source
  | target
  | markup
  | order
  | fillMissing
  | limit
  deriving DecidableEq

namespace Field

/-- In the order in which a list gives them. -/
def all : List Field := [.source, .target, .markup, .order, .fillMissing, .limit]

def key : Field → String
  | .source => "from"
  | .target => "to"
  | .markup => "syntax"
  | .order => "order"
  | .fillMissing => "fillMissing"
  | .limit => "maxDepth"

def ofKey? (key : String) : Option Field :=
  all.find? (·.key = key)

end Field

private def choose {α : Type} (all : List α) (name : α → String) (written : String) :
    Except SettingsFault α :=
  match all.find? (name · = written) with
  | some choice => .ok choice
  | none => .error (.unknownName written (all.map name))

/-- A choice is a name, or a name with nothing under it. -/
private def choice {α : Type} (all : List α) (name : α → String) :
    Value → Except SettingsFault α
  | .str written => choose all name written
  | .obj [(written, content)] => do
    let choice ← choose all name written
    if content.isNull then return choice else throw (.wrongType content .nothing)
  | .obj _ => .error .notSingle
  | other => .error (.wrongType other .name)

private def truth : Value → Except SettingsFault Bool
  | .bool value => .ok value
  | other => .error (.wrongType other .truth)

private def count : Value → Except SettingsFault Nat
  | .num (.int value) => if value < 0 then .error (.negative value) else .ok value.toNat
  | other => .error (.wrongType other .count)

/-- Gives a field the value that is written for it. -/
def set (settings : Settings) (field : Field) (value : Value) : Except SettingsFault Settings := do
  match field with
  | .source => return { settings with source := ← choice Dialect.all Dialect.name value }
  | .target => return { settings with target := ← choice Dialect.all Dialect.name value }
  | .markup =>
    let markup ← choice Markup.all Markup.name value
    return { settings with layout := { settings.layout with markup } }
  | .order =>
    let order ← choice KeyOrder.all KeyOrder.name value
    return { settings with layout := { settings.layout with order } }
  | .fillMissing => return { settings with fillMissing := ← truth value }
  | .limit => return { settings with limit := ← count value }

private def setMember (settings : Settings) (entry : String × Value) :
    Except SettingsFault Settings :=
  match Field.ofKey? entry.1 with
  | some field => settings.set field entry.2
  | none => .ok settings

/-- Reads settings over the defaults. Members that are no setting are passed over. -/
def ofValue : Value → Except SettingsFault Settings
  | .obj members => members.foldlM setMember {}
  | .arr items => do
    let settings ← (Field.all.zip items).foldlM (fun settings entry => settings.set entry.1 entry.2) {}
    if items.length > Field.all.length then throw (.tooMany items.length)
    return settings
  | other => .error (.wrongType other .settings)

/-- The value of a field as it is written. -/
def get (settings : Settings) : Field → Value
  | .source => .str settings.source.name
  | .target => .str settings.target.name
  | .markup => .str settings.layout.markup.name
  | .order => .str settings.layout.order.name
  | .fillMissing => .bool settings.fillMissing
  | .limit => .num (.int settings.limit)

def toValue (settings : Settings) : Value :=
  .obj (Field.all.map fun field => (field.key, settings.get field))

end Settings
end ApiDialect
