import ApiDialect.Settings.Load
import ApiDialect.Source

/-!
From a source to a converted document and its text, as the settings ask for it.
-/

namespace ApiDialect
namespace Settings

/-- Loads a document, fills it when asked to, and converts it. -/
def convert (settings : Settings) (registry : Registry) (files : Files) (source : Source) :
    Except Error Converted := do
  let loaded ← Loaded.load registry files source settings.source
  let loaded := if settings.fillMissing then loaded.fill Value.placeholders else loaded
  loaded.convert registry files settings.limit settings.target

def render (settings : Settings) (converted : Converted) : String :=
  ApiDialect.render settings.layout converted.document

end Settings
end ApiDialect
