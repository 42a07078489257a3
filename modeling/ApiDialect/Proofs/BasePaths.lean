import ApiDialect.Proofs.Repairs
import ApiDialect.Proofs.Texts

/-! A repaired base path names the same segments as before, in the same order. No slash in it is needless, and it begins with one
when the path does so or when there is nothing to name. -/

namespace ApiDialect
open Value

namespace Repair
variable {path : List Char}

/-- The names between the slashes of a path, empty ones left out. -/
def segments (path : List Char) : List (List Char) :=
  (Text.splitChars '/' path).filter (· ≠ [])

theorem segments_append_slash (before rest : List Char) : segments (before ++ '/' :: rest) = segments before ++ segments rest := by
  rw [segments, Text.splitChars_append_cons, List.filter_append, segments, segments]

theorem segments_slash (rest : List Char) : segments ('/' :: rest) = segments rest :=
  segments_append_slash [] rest

/-- Only slashes name nothing. -/
theorem segments_eq_nil_iff : segments path = [] ↔ ∀ char ∈ path, char = '/' := by
  induction path with
  | nil => simp [segments, Text.splitChars]
  | cons char rest ih =>
    by_cases slash : char = '/'
    · subst slash
      rw [segments_slash, ih, List.forall_mem_cons, and_iff_right rfl]
    · obtain ⟨first, others, same, _⟩ := Text.splitChars_cases '/' rest
      have named : segments (char :: rest) = (char :: first) :: others.filter (· ≠ []) := by
        rw [segments, Text.splitChars, if_neg slash, same]
        exact List.filter_cons_of_pos (by simp)
      rw [named, List.forall_mem_cons]
      exact ⟨fun none => absurd none (List.cons_ne_nil _ _), fun slashes => absurd slashes.1 slash⟩

/-- Behind every beginning, the path that is collapsed names what the whole one names. -/
theorem segments_append_collapse (before path : List Char) : segments (before ++ collapse path) = segments (before ++ path) := by
  fun_induction collapse path generalizing before with
  | case1 rest ih =>
    -- The slash that goes leaves no segment between it and the next one.
    rw [ih, segments_append_slash, segments_append_slash, segments_slash]
  | case2 char rest _ ih =>
    have behind := ih (before ++ [char])
    rwa [List.append_assoc, List.append_assoc] at behind
  | case3 => rfl

theorem segments_collapse (path : List Char) : segments (collapse path) = segments path :=
  segments_append_collapse [] path

theorem segments_withoutLastSlash (path : List Char) : segments (withoutLastSlash path) = segments path := by
  unfold withoutLastSlash
  split
  next slash =>
    obtain ⟨before, rfl⟩ := List.getLast?_eq_some_iff.mp slash
    rw [List.dropLast_concat, segments_append_slash]
    exact (List.append_nil _).symm
  next => rfl

/-- What is left of a path begins as the path does, unless nothing is left. -/
theorem head?_withoutLastSlash (left : withoutLastSlash path ≠ []) : (withoutLastSlash path).head? = path.head? := by
  unfold withoutLastSlash at left ⊢
  split
  next slash =>
    obtain ⟨before, rfl⟩ := List.getLast?_eq_some_iff.mp slash
    rw [if_pos slash, List.dropLast_concat] at left
    rw [List.dropLast_concat, List.head?_append_of_ne_nil _ left]
  next => rfl

/-- A path and what stands for it once the needless slashes are gone. -/
structure Normal (path tidied : List Char) : Prop where
  filled : tidied ≠ []
  single : ¬ ['/', '/'] <:+: tidied
  closing : tidied.getLast? = some '/' → tidied = ['/']
  segments : segments tidied = segments path
  rooted : tidied.head? = some '/' ↔ path.head? = some '/' ∨ Repair.segments path = []

theorem Tidy.single (tidy : Tidy path) : ¬ ['/', '/'] <:+: path := by
  intro inside
  have both : Tidy ['/', '/'] := List.IsChain.infix tidy inside
  exact (List.isChain_cons_cons.mp both).1 rfl rfl

theorem normal_slash (nothing : withoutLastSlash (collapse path) = []) : Normal path ['/'] := by
  have unnamed : segments path = [] := by
    rw [← segments_collapse, ← segments_withoutLastSlash, nothing]
    rfl
  refine ⟨List.cons_ne_nil _ _, by decide, fun _ => rfl, ?_, ?_⟩
  · rw [unnamed]
    rfl
  · exact ⟨fun _ => Or.inr unnamed, fun _ => rfl⟩

theorem normal_left (left : withoutLastSlash (collapse path) ≠ []) : Normal path (withoutLastSlash (collapse path)) := by
  have tidy := tidy_collapse path
  have last := getLast?_withoutLastSlash tidy
  have named : segments (withoutLastSlash (collapse path)) = segments path := by
    rw [segments_withoutLastSlash, segments_collapse]
  have some : segments path ≠ [] := by
    intro none
    rw [← named, segments_eq_nil_iff] at none
    apply last
    rw [List.getLast?_eq_some_getLast left, none _ (List.getLast_mem left)]
  refine ⟨left, (tidy_withoutLastSlash tidy).single, fun slash => absurd slash last, named, ?_⟩
  rw [head?_withoutLastSlash left, head?_collapse, or_iff_left some]

theorem normal_basePath (path : String) : Normal path.toList (basePath path).toList := by
  by_cases nothing : withoutLastSlash (collapse path.toList) = []
  · have tidied : basePath path = "/" := if_pos (List.isEmpty_iff.mpr nothing)
    rw [tidied]
    exact normal_slash nothing
  · have tidied : basePath path = String.ofList (withoutLastSlash (collapse path.toList)) :=
      if_neg fun empty => nothing (List.isEmpty_iff.mp empty)
    rw [tidied, String.toList_ofList]
    exact normal_left nothing

end Repair

/-- The base path of a document of the older dialect is replaced by its normal form. -/
theorem Dialect.repair_basePath {document : Value} {path : String} (told : document.get? "basePath" = some (.str path)) :
    (Dialect.swagger2.repair document).get? "basePath" = some (.str (Repair.basePath path)) ∧
    Repair.Normal path.toList (Repair.basePath path).toList ∧ Repair.basePath (Repair.basePath path) = Repair.basePath path := by
  refine ⟨?_, Repair.normal_basePath path, Repair.basePath_basePath path⟩
  obtain ⟨members, rfl⟩ := obj_of_get? told
  have repaired := Repair.get?_members members "basePath"
  rw [show Members.get? members "basePath" = some (.str path) from told] at repaired
  exact repaired

/-- A document whose author has put slashes around every part of the path. -/
def quay : Value :=
  .obj [("swagger", .str "2.0"), ("basePath", .str "//api///v1/"), ("paths", .obj [])]

theorem quay_basePath : quay.get? "basePath" = some (.str "//api///v1/") ∧
    (Dialect.swagger2.repair quay).get? "basePath" = some (.str "/api/v1") ∧
    Repair.Normal "//api///v1/".toList "/api/v1".toList ∧ Repair.basePath "/api/v1" = "/api/v1" := by
  have told : quay.get? "basePath" = some (.str "//api///v1/") := rfl
  have tidied : Repair.basePath "//api///v1/" = "/api/v1" := by decide +kernel
  have repaired := Dialect.repair_basePath told
  rw [tidied] at repaired
  exact ⟨told, repaired⟩

end ApiDialect
