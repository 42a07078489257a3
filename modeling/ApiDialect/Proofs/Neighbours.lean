import ApiDialect.Proofs.Texts
import ApiDialect.Reference

/-! References into the files beside a document. What such a reference leads to is what its fragment leads to in the document
of the file. A name that is no URL still counts as one when it begins like the address of a web page. -/

namespace ApiDialect

namespace Text
variable {separator : Char} {front : List Char}

theorem splitOnceChars?_append (clean : separator ∉ front) (behind : List Char) :
    splitOnceChars? separator (front ++ separator :: behind) = some (front, behind) := by
  induction front with
  | nil =>
    rw [List.nil_append, splitOnceChars?, if_pos rfl]
  | cons char rest ih =>
    obtain ⟨apart, clean⟩ := List.ne_and_not_mem_of_not_mem_cons clean
    rw [List.cons_append, splitOnceChars?, if_neg (Ne.symm apart), ih clean]
    rfl

end Text

namespace Reference
variable {names : HostNames} {file : String}

/-- A file and a place in its document. -/
def within (file fragment : String) : String :=
  file ++ "#" ++ fragment

theorem toList_within (file fragment : String) : (within file fragment).toList = file.toList ++ '#' :: fragment.toList := by
  simp [within, String.toList_append]

theorem splitOnce?_within (clean : '#' ∉ file.toList) (fragment : String) :
    Text.splitOnce? '#' (within file fragment) = some (file, fragment) := by
  rw [Text.splitOnce?, toList_within, Text.splitOnceChars?_append clean, Option.map_some]
  simp only [String.ofList_toList]

/-- A reference with a file is none into its own document. -/
theorem strip?_within (named : file ≠ "") (clean : '#' ∉ file.toList) (fragment : String) :
    Text.strip? "#" (within file fragment) = none := by
  rw [Text.strip?, toList_within]
  cases seen : file.toList with
  | nil => exact absurd (String.toList_eq_nil_iff.mp seen) named
  | cons char rest =>
    rw [seen] at clean
    obtain ⟨apart, _⟩ := List.ne_and_not_mem_of_not_mem_cons clean
    have missed : Text.stripChars? "#".toList (char :: rest ++ '#' :: fragment.toList) = none := if_neg (Ne.symm apart)
    rw [missed, Option.map_none]

/-- Apart from the texts that begin like a web address, all that is taken for one is a URL. -/
theorem isRemote_of_relative (relative : ∀ url, Url.read? names file = some url → url.scheme.length ≤ 1) :
    isRemote names file = file.startsWith "http" := by
  rw [isRemote]
  cases seen : Url.read? names file with
  | none => rw [Option.any_none, Bool.or_false]
  | some url =>
    have short : decide (url.scheme.length > 1) = false := decide_eq_false (Nat.not_lt.mpr (relative url seen))
    rw [Option.any_some, short, Bool.or_false]

end Reference

namespace Resolver
variable {resolver : Resolver} {directory file text : String} {document : Value}

theorem load_of_isRemote (remote : Reference.isRemote resolver.files.hostNames file = true) (reference : String) :
    resolver.load reference file = .error (.unsupportedReference reference) := by
  rw [load, if_pos remote]
  rfl

theorem load_of_read (near : Reference.isRemote resolver.files.hostNames file = false)
    (known : resolver.directory = some directory) (read : resolver.files.readText (Path.join directory file) = .ok text)
    (parsed : parse? text = some document) (reference : String) : resolver.load reference file = .ok document := by
  unfold load
  rw [near, known]
  dsimp only
  rw [read]
  dsimp only
  rw [parsed]
  rfl

theorem follow_within (named : file ≠ "") (clean : '#' ∉ file.toList) (root : Value) (fragment : String) :
    resolver.follow root (Reference.within file fragment) =
      (resolver.load (Reference.within file fragment) file).bind fun loaded =>
        walk (Reference.within file fragment) loaded fragment := by
  rw [follow, Reference.strip?_within named clean]
  dsimp only
  rw [Reference.splitOnce?_within clean]
  rfl

/-- Inside a document its fragments are walked. -/
theorem follow_fragment (root : Value) (fragment : String) :
    resolver.follow root ("#" ++ fragment) = walk ("#" ++ fragment) root fragment := by
  rw [follow, Text.strip?_append]

/-- Two references lead to the same place, or both lead nowhere. -/
structure SameAnswer (first second : String) (one other : Except Error Value) : Prop where
  found : ∀ target, one = .ok target ↔ other = .ok target
  missing : one = .error (.unresolvedReference first) ↔ other = .error (.unresolvedReference second)

/-- What a walk finds does not depend on the reference that it is made for. -/
theorem walk_sameAnswer (first second : String) (document : Value) (fragment : String) :
    SameAnswer first second (walk first document fragment) (walk second document fragment) := by
  unfold walk
  cases document.walk? (Pointer.ofFragment fragment) with
  | none => exact ⟨fun target => by simp, iff_of_true rfl rfl⟩
  | some reached => exact ⟨fun target => Iff.rfl, by simp⟩

/-- A walk finds a node or nothing, so no other fault has the answer of one. -/
theorem not_sameAnswer_of_unsupported (first second reference : String) (document : Value) (fragment : String) :
    ¬ SameAnswer first second (.error (.unsupportedReference reference)) (walk second document fragment) := by
  intro same
  unfold walk at same
  cases reached : document.walk? (Pointer.ofFragment fragment) with
  | none =>
    rw [reached] at same
    cases same.missing.mpr rfl
  | some target =>
    rw [reached] at same
    cases (same.found target).mpr rfl

/-- A reference into a file that can be read leads, from everywhere, where its fragment leads in the document of the file, unless
the name of the file begins like a web address: that is never looked up. -/
theorem follow_within_iff (known : resolver.directory = some directory) (named : file ≠ "") (clean : '#' ∉ file.toList)
    (relative : ∀ url, Url.read? resolver.files.hostNames file = some url → url.scheme.length ≤ 1)
    (read : resolver.files.readText (Path.join directory file) = .ok text) (parsed : parse? text = some document) :
    (∀ root fragment, SameAnswer (Reference.within file fragment) ("#" ++ fragment)
        (resolver.follow root (Reference.within file fragment)) (resolver.follow document ("#" ++ fragment)) ↔
      file.startsWith "http" = false) ∧
    (file.startsWith "http" = true → ∀ root fragment, resolver.follow root (Reference.within file fragment) =
      .error (.unsupportedReference (Reference.within file fragment))) := by
  have taken := Reference.isRemote_of_relative relative
  have refused (starts : file.startsWith "http" = true) (root : Value) (fragment : String) :
      resolver.follow root (Reference.within file fragment) =
        .error (.unsupportedReference (Reference.within file fragment)) := by
    rw [follow_within named clean, load_of_isRemote (taken.trans starts)]
    rfl
  refine ⟨?_, refused⟩
  intro root fragment
  rw [follow_fragment]
  cases starts : file.startsWith "http" with
  | true =>
    rw [refused starts]
    exact iff_of_false (not_sameAnswer_of_unsupported _ _ _ _ _) Bool.true_eq_false.mp
  | false =>
    rw [follow_within named clean, load_of_read (taken.trans starts) known read parsed]
    exact iff_of_true (walk_sameAnswer _ _ _ _) rfl

/-- A shop with its prices in one file and what it answers in another. -/
def stall : Resolver where
  directory := some "stall"
  files := {
    readText path :=
      if path = "stall/prices.json" then .ok "\x7b\"tea\": \x7b\"cents\": 120\x7d\x7d"
      else if path = "stall/httpcodes.json" then .ok "\x7b\"ok\": 200\x7d"
      else .error .notFound
    exists? path := path = "stall/prices.json" || path = "stall/httpcodes.json" }

theorem stall_follows : Url.read? stall.files.hostNames "prices.json" = none ∧
    parse? "\x7b\"tea\": \x7b\"cents\": 120\x7d\x7d" = some (.obj [("tea", .obj [("cents", .num (.int 120))])]) ∧
    stall.follow .null (Reference.within "prices.json" "/tea/cents") = .ok (.num (.int 120)) := by
  have unread : Url.read? stall.files.hostNames "prices.json" = none := by decide +kernel
  have parsed : parse? "\x7b\"tea\": \x7b\"cents\": 120\x7d\x7d" = some (.obj [("tea", .obj [("cents", .num (.int 120))])]) := by
    decide +kernel
  have relative : ∀ url, Url.read? stall.files.hostNames "prices.json" = some url → url.scheme.length ≤ 1 := by
    intro url impossible
    cases unread.symm.trans impossible
  refine ⟨unread, parsed, ?_⟩
  have directory : stall.directory = some "stall" := rfl
  obtain ⟨alike, _⟩ := follow_within_iff directory (by decide) (by decide) relative (by decide +kernel) parsed
  exact ((alike .null "/tea/cents").mpr (by decide +kernel)).found _ |>.mpr (by decide +kernel)

/-- The codes are there, and their file has the name of no URL. -/
theorem stall_refuses : Url.read? stall.files.hostNames "httpcodes.json" = none ∧
    stall.files.readText (Path.join "stall" "httpcodes.json") = .ok "\x7b\"ok\": 200\x7d" ∧
    parse? "\x7b\"ok\": 200\x7d" = some (.obj [("ok", .num (.int 200))]) ∧
    stall.follow (.obj [("ok", .num (.int 200))]) "#/ok" = .ok (.num (.int 200)) ∧
    stall.follow .null "httpcodes.json#/ok" = .error (.unsupportedReference "httpcodes.json#/ok") := by
  decide +kernel

end Resolver
end ApiDialect
