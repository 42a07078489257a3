import ApiDialect.Conversion
import ApiDialect.Placeholder
import ApiDialect.Repair
import ApiDialect.Version

/-!
The dialects that are known, in the order in which they became known, and what can be converted
into what.
-/

namespace ApiDialect

structure Registry where
  dialects : List Dialect
  distinct : dialects.Nodup

namespace Registry

def empty : Registry := ⟨[], .nil⟩

/-- A dialect that is known already keeps its place. -/
def register (registry : Registry) (dialect : Dialect) : Registry :=
  if absent : dialect ∈ registry.dialects then registry
  else
    ⟨registry.dialects ++ [dialect], by
      rw [List.nodup_append]
      refine ⟨registry.distinct, List.nodup_cons.mpr ⟨List.not_mem_nil, .nil⟩, ?_⟩
      intro known here other same
      rw [List.mem_singleton] at same
      rintro rfl
      exact absent (same ▸ here)⟩

def ofList (dialects : List Dialect) : Registry :=
  dialects.foldl register empty

/-- Every dialect there is. -/
def complete : Registry := ofList [.swagger2, .openApi3]

/-- Succeeds when a dialect is known. -/
def require (registry : Registry) (dialect : Dialect) : Except Error Unit :=
  if dialect ∈ registry.dialects then .ok () else .error (.unknownDialect dialect.name)

/-- The known dialect of a family in a version, the latest of several. -/
def find? (registry : Registry) (family version : String) : Option Dialect :=
  (registry.dialects.filter fun dialect =>
    dialect.family = family && dialect.versions.contains version).getLast?

end Registry

/-- Only the newer dialect is converted, and only into the older one. -/
def Dialect.convert (source target : Dialect) (setting : Conversion.Setting) (document : Value) :
    Except Error Converted :=
  match source, target with
  | .openApi3, .swagger2 => setting.convert document
  | _, _ => .error (.noConversion source target)

end ApiDialect
