import ApiDialect.Proofs.Alike
import ApiDialect.Repair
import Mathlib.Data.List.Chain

/-! Repairs leave nothing behind that they would change again, so a repaired document stays as it
is. They reach three members of a document and no other one. -/

namespace ApiDialect
open Value

namespace Repair
variable {path : List Char} {document : Members Value}

/-- No two slashes stand side by side. -/
def Tidy (path : List Char) : Prop :=
  path.IsChain fun one other => one = '/' → other ≠ '/'

theorem head?_collapse (path : List Char) : (collapse path).head? = path.head? := by
  fun_induction collapse path with
  | case1 rest ih => exact ih
  | case2 | case3 => rfl

theorem tidy_collapse (path : List Char) : Tidy (collapse path) := by
  fun_induction collapse path with
  | case1 rest ih => exact ih
  | case2 char rest single ih =>
    refine List.isChain_cons.mpr ⟨fun other next slash => ?_, ih⟩
    rw [head?_collapse, Option.mem_def, List.head?_eq_some_iff] at next
    obtain ⟨more, rfl⟩ := next
    rintro rfl
    exact single more slash rfl
  | case3 => exact .nil

theorem collapse_of_tidy (tidy : Tidy path) : collapse path = path := by
  fun_induction collapse path with
  | case1 rest => exact absurd rfl ((List.isChain_cons_cons.mp tidy).1 rfl)
  | case2 char rest _ ih => rw [ih tidy.tail]
  | case3 => rfl

theorem withoutLastSlash_of_getLast?_ne (last : path.getLast? ≠ some '/') : withoutLastSlash path = path :=
  if_neg last

theorem tidy_withoutLastSlash (tidy : Tidy path) : Tidy (withoutLastSlash path) := by
  unfold withoutLastSlash
  split
  next => exact List.IsChain.dropLast tidy
  next => exact tidy

/-- There was only one slash at the end. -/
theorem getLast?_withoutLastSlash (tidy : Tidy path) : (withoutLastSlash path).getLast? ≠ some '/' := by
  unfold withoutLastSlash
  split
  next slash =>
    obtain ⟨before, rfl⟩ := List.getLast?_eq_some_iff.mp slash
    rw [List.dropLast_concat]
    exact fun another => (List.isChain_append.mp tidy).2.2 _ another _ rfl rfl rfl
  next other => exact other

theorem basePath_basePath (path : String) : basePath (basePath path) = basePath path := by
  generalize kept : withoutLastSlash (collapse path.toList) = left
  have tidy : Tidy left := kept ▸ tidy_withoutLastSlash (tidy_collapse path.toList)
  have last : left.getLast? ≠ some '/' := kept ▸ getLast?_withoutLastSlash (tidy_collapse path.toList)
  have once : basePath path = if left.isEmpty then "/" else String.ofList left := by rw [basePath, kept]
  rw [once]
  split
  next => decide +kernel
  next some =>
    rw [basePath, String.toList_ofList, collapse_of_tidy tidy, withoutLastSlash_of_getLast?_ne last]
    exact if_neg some

theorem basePathIn_basePathIn (value : Value) : basePathIn (basePathIn value) = basePathIn value := by
  cases value with
  | str path => exact congrArg Value.str (basePath_basePath path)
  | _ => rfl

/-- A version that has been repaired is a text. -/
theorem versionIn_versionIn (info : Value) : versionIn (versionIn info) = versionIn info := by
  have again : versionIn info = info ∨
      ∃ members text, versionIn info = .obj (Members.insert members "version" (.str text)) := by
    unfold versionIn
    split
    next members =>
      split
      next version _ => exact .inr ⟨members, version.versionText, rfl⟩
      next => exact .inl rfl
    next => exact .inl rfl
  rcases again with same | ⟨members, text, same⟩
  · rw [same, same]
  · rw [same, versionIn]
    simp

theorem withoutId_withoutId {definition : String × Value} (formed : Formed definition.2) :
    withoutId (withoutId definition) = withoutId definition := by
  obtain ⟨name, value⟩ := definition
  cases value with
  | obj members =>
    have gone := Sound.distinct formed |>.get?_erase_self "id"
    simp only [withoutId, Members.erase_of_get?_eq_none gone]
  | _ => rfl

theorem idsIn_idsIn {value : Value} (formed : Formed value) : idsIn (idsIn value) = idsIn value := by
  cases value with
  | obj definitions =>
    simp only [idsIn, List.map_map, Value.obj.injEq, List.map_inj_left]
    exact fun definition member => withoutId_withoutId (Sound.entry formed member).2
  | _ => rfl

/-- What is done to the member of a name. -/
def repairAt (name : String) : Value → Value :=
  if name = "info" then versionIn
  else if name = "basePath" then basePathIn
  else if name = "definitions" then idsIn
  else id

theorem members_eq (document : Members Value) : members document =
    Members.modify (Members.modify (Members.modify document "info" (repairAt "info")) "basePath" (repairAt "basePath"))
      "definitions" (repairAt "definitions") := rfl

theorem get?_members (document : Members Value) (name : String) :
    Members.get? (members document) name = (Members.get? document name).map (repairAt name) := by
  rw [members_eq, Members.get?_modify, Members.get?_modify, Members.get?_modify]
  by_cases info : name = "info"
  · subst info
    simp
  by_cases path : name = "basePath"
  · subst path
    simp
  by_cases definitions : name = "definitions"
  · subst definitions
    simp
  · simp [repairAt, info, path, definitions, Ne.symm info, Ne.symm path, Ne.symm definitions]

theorem repairAt_repairAt {name : String} {value : Value} (formed : Formed value) :
    repairAt name (repairAt name value) = repairAt name value := by
  unfold repairAt
  split
  next => exact versionIn_versionIn value
  next =>
    split
    next => exact basePathIn_basePathIn value
    next =>
      split
      next => exact idsIn_idsIn formed
      next => rfl

/-- A repaired document needs no further repair. -/
theorem members_members (formed : Formed (.obj document)) : members (members document) = members document := by
  have settled : ∀ name value, Members.get? (members document) name = some value → repairAt name value = value := by
    intro name value seen
    rw [get?_members] at seen
    obtain ⟨held, found, rfl⟩ := Option.map_eq_some_iff.mp seen
    exact repairAt_repairAt (Sound.get? formed found)
  generalize members document = repaired at settled ⊢
  rw [members_eq, Members.modify_of_forall (settled "info"), Members.modify_of_forall (settled "basePath"),
    Members.modify_of_forall (settled "definitions")]

end Repair

/-- The member that names the dialect is not one of those that are repaired. -/
theorem Dialect.repair_get?_swagger (dialect : Dialect) (document : Value) :
    (dialect.repair document).get? "swagger" = document.get? "swagger" := by
  unfold Dialect.repair
  split
  next members => simp [Value.get?, Repair.get?_members, Repair.repairAt]
  next => rfl

theorem Dialect.repair_repair {dialect : Dialect} {document : Value} (formed : Formed document) :
    dialect.repair (dialect.repair document) = dialect.repair document := by
  cases dialect with
  | openApi3 => rfl
  | swagger2 =>
    cases document with
    | obj members => exact congrArg Value.obj (Repair.members_members formed)
    | _ => rfl

end ApiDialect
