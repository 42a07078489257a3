import ApiDialect.Proofs.ServerPlaces
import ApiDialect.Proofs.WrittenPorts

/-! Absolute URLs that cannot be read. They are refused for their host, for their port, or because they name nobody. A server takes
every text that it cannot read for a path, so such a URL becomes a base path with its scheme and its host in it. A URL that can be
read never does: its path is empty or begins with a slash. -/

namespace ApiDialect
open Rewriting Value

namespace Url
variable {names : HostNames} {kind : Kind} {text behind rest scheme : List Char} {char : Char}

/-! ### Hosts -/

/-- What is wrong with a host. A domain cannot be decoded, it has no name in ASCII or an empty one, or that name has a character
that no domain has or ends in a number and is no address. -/
inductive BadHost (names : HostNames) : Kind → List Char → Prop
  | unclosed {kind : Kind} {text : List Char} (opened : text.head? = some '[') (ends : text.getLast? ≠ some ']') :
      BadHost names kind text
  | address {kind : Kind} {inner : List Char} (unread : Address.wide? inner = none) :
      BadHost names kind ('[' :: (inner ++ [']']))
  | plain {text : List Char} {char : Char} (bare : text.head? ≠ some '[') (member : char ∈ text)
      (forbidden : isForbidden char = true) : BadHost names .other text
  | encoding {kind : Kind} {text : List Char} (bare : text.head? ≠ some '[') (known : kind ≠ .other)
      (unread : decoded? text = none) : BadHost names kind text
  | foreign {kind : Kind} {text : List Char} {name : String} (bare : text.head? ≠ some '[') (known : kind ≠ .other)
      (decoded : decoded? text = some name) (unwritten : names.ascii? name = none) : BadHost names kind text
  | nameless {kind : Kind} {text : List Char} {name : String} (bare : text.head? ≠ some '[') (known : kind ≠ .other)
      (decoded : decoded? text = some name) (written : names.ascii? name = some "") : BadHost names kind text
  | letter {kind : Kind} {text : List Char} {name ascii : String} {char : Char} (bare : text.head? ≠ some '[')
      (known : kind ≠ .other) (decoded : decoded? text = some name) (written : names.ascii? name = some ascii)
      (member : char ∈ ascii.toList) (forbidden : isForbiddenDomain char = true) : BadHost names kind text
  | number {kind : Kind} {text : List Char} {name ascii : String} (bare : text.head? ≠ some '[') (known : kind ≠ .other)
      (decoded : decoded? text = some name) (written : names.ascii? name = some ascii)
      (numeric : Address.endsInNumber ascii.toList = true) (unread : Address.bytes? ascii.toList = none) : BadHost names kind text

theorem bracketed?_closed (inner : List Char) : bracketed? ('[' :: (inner ++ [']'])) =
    (Address.wide? inner).map fun pieces => "[" ++ Address.showWide pieces ++ "]" := by
  have turned : ('[' :: (inner ++ [']'])).reverse = ']' :: (inner.reverse ++ ['[']) := by simp
  have inside : (inner.reverse ++ ['[']).reverse = '[' :: inner := by simp
  simp only [bracketed?, turned, inside]
  rfl

theorem bracketed?_eq_none_iff (opened : text.head? = some '[') : bracketed? text = none ↔ BadHost names kind text := by
  constructor
  · intro refused
    by_cases ends : text.getLast? = some ']'
    · obtain ⟨front, rfl⟩ := List.getLast?_eq_some_iff.mp ends
      cases front with
      | nil => cases opened
      | cons first inner =>
        obtain rfl : first = '[' := Option.some.inj opened
        rw [List.cons_append, bracketed?_closed, Option.map_eq_none_iff] at refused
        exact .address refused
    · exact .unclosed opened ends
  · intro bad
    cases bad with
    | unclosed _ ends =>
      cases read : bracketed? text with
      | none => rfl
      | some host => exact absurd (bracketed?_ends read) ends
    | address unread => rw [bracketed?_closed, unread, Option.map_none]
    | plain bare | encoding bare | foreign bare | nameless bare | letter bare | number bare => exact absurd opened bare

theorem plainHost?_eq_none_iff : plainHost? text = none ↔ ∃ char ∈ text, isForbidden char = true := by
  rw [plainHost?, ← List.any_eq_true]
  split
  next found => exact iff_of_true rfl found
  next clean => exact iff_of_false (Option.some_ne_none _) clean

/-- A name in ASCII is refused for what it is made of, and as a number that is no address. -/
theorem asciiHost?_eq_none_iff {ascii : String} : asciiHost? ascii = none ↔
    ascii = "" ∨ (∃ char ∈ ascii.toList, isForbiddenDomain char = true) ∨
      Address.endsInNumber ascii.toList = true ∧ Address.bytes? ascii.toList = none := by
  rw [asciiHost?, ← String.isEmpty_iff, ← List.any_eq_true, ← or_assoc, ← Bool.or_eq_true]
  split
  next wrong => exact iff_of_true rfl (.inl wrong)
  next fine =>
    rw [or_iff_right fine]
    split
    next numeric => rw [Option.map_eq_none_iff, and_iff_right numeric]
    next other => exact iff_of_false (Option.some_ne_none _) fun both => other both.1

theorem domain?_eq_none_iff (bare : text.head? ≠ some '[') (known : kind ≠ .other) :
    domain? names text = none ↔ BadHost names kind text := by
  unfold domain?
  cases decoded : decoded? text with
  | none => exact iff_of_true rfl (.encoding bare known decoded)
  | some name =>
    rw [Option.bind_eq_bind, Option.bind_some]
    cases written : names.ascii? name with
    | none => exact iff_of_true rfl (.foreign bare known decoded written)
    | some ascii =>
      rw [Option.bind_some, asciiHost?_eq_none_iff]
      constructor
      · rintro (rfl | ⟨char, member, forbidden⟩ | ⟨numeric, unread⟩)
        · exact .nameless bare known decoded written
        · exact .letter bare known decoded written member forbidden
        · exact .number bare known decoded written numeric unread
      · intro bad
        cases bad with
        | unclosed opened => exact absurd opened bare
        | address => exact absurd rfl bare
        | plain => exact absurd rfl known
        | encoding _ _ unread => cases decoded.symm.trans unread
        | foreign _ _ same unwritten =>
          cases decoded.symm.trans same
          cases written.symm.trans unwritten
        | nameless _ _ same empty =>
          cases decoded.symm.trans same
          exact .inl (Option.some.inj (written.symm.trans empty))
        | letter _ _ same again member forbidden =>
          cases decoded.symm.trans same
          cases written.symm.trans again
          exact .inr (.inl ⟨_, member, forbidden⟩)
        | number _ _ same again numeric unread =>
          cases decoded.symm.trans same
          cases written.symm.trans again
          exact .inr (.inr ⟨numeric, unread⟩)

/-- A host is refused for one of the known faults. -/
theorem host?_eq_none_iff : host? names kind text = none ↔ BadHost names kind text := by
  unfold host?
  split
  next opened => exact bracketed?_eq_none_iff opened
  next bare =>
    split
    next other =>
      subst other
      rw [plainHost?_eq_none_iff]
      constructor
      · rintro ⟨char, member, forbidden⟩
        exact .plain bare member forbidden
      · intro bad
        cases bad with
        | unclosed opened => exact absurd opened bare
        | address => exact absurd rfl bare
        | plain _ member forbidden => exact ⟨_, member, forbidden⟩
        | encoding _ known | foreign _ known | nameless _ known | letter _ known | number _ known => exact absurd rfl known
    next known => exact domain?_eq_none_iff bare known

/-! ### Ports -/

/-- What is wrong behind the colon of a port: the digits do not end where a path or a tail begins, or their number is too large. -/
inductive BadPort : List Char → Prop
  | stray {behind : List Char} {char : Char} (next : (behind.dropWhile Char.isDigit).head? = some char)
      (other : (char = '/' || char = '\\' || isTail char) = false) : BadPort behind
  | large {behind : List Char} (number : portNumber? (behind.takeWhile Char.isDigit) = none) : BadPort behind

theorem port?_eq_none_iff : port? (':' :: behind) = none ↔ BadPort behind := by
  simp only [port?, List.span_eq_takeWhile_dropWhile]
  constructor
  · intro refused
    split at refused
    next stray =>
      cases next : (behind.dropWhile Char.isDigit).head? with
      | none =>
        rw [next] at stray
        cases stray
      | some char =>
        rw [next, Option.any_some, Bool.not_eq_true'] at stray
        exact .stray next stray
    next => exact .large (Option.map_eq_none_iff.mp refused)
  · intro bad
    cases bad with
    | stray next other => rw [next, Option.any_some, other, Bool.not_false, if_pos rfl]
    | large number => rw [number, Option.map_none, ite_self]

/-- Without a colon there is no port to refuse. -/
theorem port?_ne_none (other : text.head? ≠ some ':') : port? text ≠ none := by
  unfold port?
  split
  next => exact absurd rfl other
  next => exact Option.some_ne_none _

/-! ### Authorities -/

/-- What is made of two parts is missing when one of them is. -/
theorem made_eq_none_iff {α β γ : Type} {first : Option α} {second : Option β} {make : α → β → γ} :
    (first.bind fun left => second.bind fun right => some (make left right)) = none ↔ first = none ∨ second = none := by
  cases first <;> cases second <;> simp

/-- The path and what follows it. -/
def Kind.fromPath (kind : Kind) (text : List Char) : List Char :=
  text.dropWhile fun char => !kind.endsAuthority char

/-- Where a host may be missing, a user or a port may not stand there without one. -/
def Stranded (user : Option (List Char)) (behind tail : List Char) : Prop :=
  hasUser user = true ∨ behind ≠ [] ∨ user = some [] ∧ tail ≠ []

/-- Why a text cannot stand behind the slashes of a URL. A web scheme needs a host. A file does not, and a scheme that is not known
needs one only beside a user or a port. -/
inductive Refused (names : HostNames) : Kind → List Char → Prop
  | nobody {text : List Char} (hostless : (located (Kind.other.beforePath text)).1 = [])
      (stranded : Stranded (splitUser (Kind.other.beforePath text)).1 (located (Kind.other.beforePath text)).2
        (Kind.other.fromPath text)) : Refused names .other text
  | host {kind : Kind} {text : List Char} (networked : kind ≠ .file)
      (needed : kind = .web ∨ (located (kind.beforePath text)).1 ≠ [])
      (bad : BadHost names kind (located (kind.beforePath text)).1) : Refused names kind text
  | port {kind : Kind} {text behind : List Char} (networked : kind ≠ .file)
      (colon : (located (kind.beforePath text)).2 = ':' :: behind) (bad : BadPort (behind ++ kind.fromPath text)) :
      Refused names kind text
  | machine {text : List Char} (named : withoutBreaks (Kind.file.beforePath text) ≠ [])
      (undriven : isDrive (withoutBreaks (Kind.file.beforePath text)) = false)
      (bad : BadHost names .file (withoutBreaks (Kind.file.beforePath text))) : Refused names .file text

theorem stranded_iff {user : Option (List Char)} : (decide (Kind.other ≠ .other) || hasUser user || !behind.isEmpty ||
    (decide (user = some []) && decide (text ≠ []))) = true ↔ Stranded user behind text := by
  simp [Stranded, or_assoc]

/-- No name at all is no name of a domain. -/
theorem badHost_nil (known : kind ≠ .other) : BadHost names kind [] :=
  .nameless (by decide) known (by decide +kernel : decoded? [] = some "") rfl

theorem withAuthority?_eq_none_iff {scheme : String} (networked : kind ≠ .file) :
    withAuthority? names kind scheme text = none ↔ Refused names kind text := by
  simp only [withAuthority?, List.span_eq_takeWhile_dropWhile]
  split
  next hostless =>
    have nameless : (located (kind.beforePath text)).1 = [] := List.isEmpty_iff.mp hostless
    cases kind with
    | web =>
      -- No user and no port matters here: the missing host alone is refused.
      refine iff_of_true (if_pos rfl) (.host networked (.inl rfl) ?_)
      rw [nameless]
      exact badHost_nil (by decide)
    | file => exact absurd rfl networked
    | other =>
      constructor
      · intro refused
        split at refused
        next stranded => exact .nobody nameless (stranded_iff.mp stranded)
        next => cases refused
      · intro bad
        have stranded : Stranded (splitUser (Kind.other.beforePath text)).1 (located (Kind.other.beforePath text)).2
            (Kind.other.fromPath text) := by
          cases bad with
          | nobody _ stranded => exact stranded
          | host _ needed => exact absurd nameless (needed.resolve_left (by decide))
          | port _ colon => exact .inr (.inl (by rw [colon]; exact List.cons_ne_nil _ _))
        exact if_pos (stranded_iff.mpr stranded)
  next named =>
    have known : (located (kind.beforePath text)).1 ≠ [] := fun hostless => named (List.isEmpty_iff.mpr hostless)
    refine made_eq_none_iff.trans ?_
    constructor
    · rintro (unnamed | unread)
      · exact .host networked (.inr known) (host?_eq_none_iff.mp unnamed)
      · change port? ((located (kind.beforePath text)).2 ++ kind.fromPath text) = none at unread
        rcases located_behind (kind.beforePath text) with nothing | ⟨behind, colon⟩
        · -- What stands behind such a host ends the authority, and no colon does.
          rw [nothing, List.nil_append] at unread
          refine absurd unread (port?_ne_none ?_)
          intro colon
          exact (plain_of_endsAuthority (endsAuthority_of_head ':' colon)).1 rfl
        · rw [colon, List.cons_append] at unread
          exact .port networked colon (port?_eq_none_iff.mp unread)
    · intro bad
      cases bad with
      | nobody hostless => exact absurd hostless known
      | host _ _ bad => exact .inl (host?_eq_none_iff.mpr bad)
      | port _ colon bad =>
        have unread : port? ((located (kind.beforePath text)).2 ++ kind.fromPath text) = none := by
          rw [colon, List.cons_append]
          exact port?_eq_none_iff.mpr bad
        exact .inr unread
      | machine => exact absurd rfl networked

/-- Behind two slashes a file is refused for its machine only. -/
theorem file?_eq_none_iff : file? names ('/' :: '/' :: text) = none ↔ Refused names .file text := by
  have begun (rest : List Char) : behindSeparator? ('/' :: rest) = some rest := rfl
  simp only [file?, begun, List.span_eq_takeWhile_dropWhile]
  constructor
  · intro refused
    split at refused
    next => cases refused
    next named =>
      rw [Bool.or_eq_true, not_or] at named
      exact .machine (fun empty => named.1 (List.isEmpty_iff.mpr empty)) (Bool.eq_false_iff.mpr named.2)
        (host?_eq_none_iff.mp (Option.map_eq_none_iff.mp refused))
  · intro bad
    cases bad with
    | host networked | port networked => exact absurd rfl networked
    | machine named undriven bad =>
      rw [if_neg]
      · exact Option.map_eq_none_iff.mpr (host?_eq_none_iff.mpr bad)
      · rw [Bool.or_eq_true, not_or]
        exact ⟨fun empty => named (List.isEmpty_iff.mp empty), Bool.eq_false_iff.mp undriven⟩

/-! ### Absolute URLs -/

/-- A scheme as it may be written. -/
structure Scheme (scheme : List Char) : Prop where
  letter : scheme.head?.any Char.isAlpha
  allowed : scheme.all isSchemeChar

/-- A scheme means the same in capitals. -/
def Kind.ofWritten (scheme : List Char) : Kind :=
  ofScheme (String.ofList (scheme.map Char.toLower))

/-- Where reading looks for an authority. Web schemes take any number of slashes, and a file keeps its breaks for now. -/
def Kind.behindSlashes (kind : Kind) (rest : List Char) : List Char :=
  match kind with
  | .web => (withoutBreaks (trimEnd rest)).dropWhile Kind.web.isSeparator
  | .file => trimEnd rest
  | .other => withoutBreaks (trimEnd rest)

theorem splitScheme?_spelling (named : Scheme scheme) : splitScheme? (Plain.spelling scheme rest) =
    some (String.ofList (scheme.map Char.toLower), '/' :: '/' :: rest) := by
  have letter := named.letter
  cases scheme with
  | nil => cases letter
  | cons first more =>
    have spanned : ((first :: (more ++ ':' :: '/' :: '/' :: rest)).span isSchemeChar) =
        (first :: more, ':' :: '/' :: '/' :: rest) := span_spelling named.allowed
    rw [Plain.spelling, List.cons_append, splitScheme?, if_pos (by simpa using letter), spanned]
    rfl

/-- What stands behind the two slashes of an absolute URL decides alone whether it can be read. -/
theorem read?_spelling {text : String} (named : Scheme scheme) (spelled : text.toList = Plain.spelling scheme rest) :
    read? names text = match Kind.ofWritten scheme with
      | .web => withAuthority? names .web (String.ofList (scheme.map Char.toLower)) (Kind.web.behindSlashes rest)
      | .file => file? names ('/' :: '/' :: Kind.file.behindSlashes rest)
      | .other => withAuthority? names .other (String.ofList (scheme.map Char.toLower)) (Kind.other.behindSlashes rest) := by
  simp only [read?, Option.bind_eq_bind, spelled, trim_spelling named.allowed, withoutBreaks_spelling named.allowed,
    splitScheme?_spelling named, dropWhile_spelling named.allowed, Option.bind_some]
  rfl

theorem read?_eq_none_iff {text : String} (named : Scheme scheme) (spelled : text.toList = Plain.spelling scheme rest) :
    read? names text = none ↔ Refused names (Kind.ofWritten scheme) ((Kind.ofWritten scheme).behindSlashes rest) := by
  rw [read?_spelling named spelled]
  generalize Kind.ofWritten scheme = kind
  cases kind with
  | web => exact withAuthority?_eq_none_iff (by decide)
  | file => exact file?_eq_none_iff
  | other => exact withAuthority?_eq_none_iff (by decide)

/-- The path of an absolute URL that can be read does not go on where the authority has ended. -/
theorem rooted_of_read? {text : String} {url : Url} (named : Scheme scheme) (spelled : text.toList = Plain.spelling scheme rest)
    (read : read? names text = some url) : Rooted url.path := by
  rw [read?_spelling named spelled] at read
  generalize Kind.ofWritten scheme = kind at read
  cases kind with
  | web => exact rooted_of_withAuthority? read
  | file => exact rooted_of_file? read
  | other => exact rooted_of_withAuthority? read

end Url

namespace Server
open Url
variable {names : HostNames} {scheme rest : List Char} {text path : String} {url : Url}

/-- What is left of a text that is taken for a path. -/
def beforeTail (text : List Char) : List Char :=
  text.takeWhile fun char => !(char = '?' || char = '#')

/-- An absolute URL that is refused becomes a base path up to its tail, with its scheme and its slashes. -/
theorem ofUrl_of_refused (named : Scheme scheme) (spelled : text.toList = Plain.spelling scheme rest)
    (refused : read? names text = none) :
    Location.ofUrl names text = ⟨none, none, some (String.ofList (Plain.spelling scheme (beforeTail rest)))⟩ := by
  have kept : beforeTail (Plain.spelling scheme rest) = Plain.spelling scheme (beforeTail rest) := by
    have marks : ∀ char ∈ [':', '/', '/'], (!(decide (char = '?') || decide (char = '#'))) = true := by simp
    have every : ∀ char ∈ scheme ++ [':', '/', '/'], (!(decide (char = '?') || decide (char = '#'))) = true := by
      intro char member
      rcases List.mem_append.mp member with front | mark
      · have allowed := isSchemeChar_of_mem named.allowed front
        rw [Bool.not_eq_true', Bool.or_eq_false_iff]
        constructor <;> refine decide_eq_false ?_ <;> rintro rfl <;> cases allowed
      · exact marks char mark
    have divided (behind : List Char) : Plain.spelling scheme behind = (scheme ++ [':', '/', '/']) ++ behind := by
      simp [Plain.spelling]
    rw [divided, beforeTail, List.takeWhile_append_of_pos every, ← beforeTail, ← divided]
  have filled : Plain.spelling scheme (beforeTail rest) ≠ [] := by simp [Plain.spelling]
  unfold Location.ofUrl
  rw [refused]
  dsimp only
  rw [spelled, ← beforeTail, kept, nonEmpty?, if_neg]
  simpa using filled

/-- The base path of a URL that can be read begins at the root. -/
theorem rooted_basePath (rooted : Rooted url.path) (read : read? names text = some url)
    (placed : (Location.ofUrl names text).basePath = some path) : ∃ more, path.toList = '/' :: more := by
  unfold Location.ofUrl at placed
  rw [read] at placed
  dsimp only [nonEmpty?] at placed
  split at placed
  next => cases placed
  next filled =>
    obtain rfl := Option.some.inj placed
    rcases rooted with empty | ⟨rest, slash⟩
    · exact absurd (String.isEmpty_iff.mpr empty) filled
    · exact ⟨rest.toList, by rw [slash, String.toList_append]; rfl⟩

/-- No text begins with a scheme and at the root. -/
theorem spelling_ne_rooted (named : Scheme scheme) (behind more : List Char) : Plain.spelling scheme behind ≠ '/' :: more := by
  have letter := named.letter
  cases scheme with
  | nil => cases letter
  | cons first others =>
    intro same
    obtain rfl : first = '/' := (List.cons.inj same).1
    cases letter

/-- A base path begins as the absolute URL does that it comes from, or at the root. It does the first where the URL is not read. -/
theorem basePath_cases (named : Scheme scheme) (spelled : text.toList = Plain.spelling scheme rest)
    (placed : (Location.ofUrl names text).basePath = some path) :
    ((∃ more, path.toList = Plain.spelling scheme more) ↔ read? names text = none) ∧
      ((∃ more, path.toList = '/' :: more) ↔ read? names text ≠ none) := by
  cases read : read? names text with
  | none =>
    rw [ofUrl_of_refused named spelled read] at placed
    obtain rfl := Option.some.inj placed
    rw [String.toList_ofList]
    refine ⟨iff_of_true ⟨_, rfl⟩ rfl, iff_of_false ?_ (absurd rfl)⟩
    rintro ⟨more, same⟩
    exact spelling_ne_rooted named _ _ same
  | some url =>
    obtain ⟨more, rooted⟩ := rooted_basePath (rooted_of_read? named spelled read) read placed
    refine ⟨iff_of_false ?_ (Option.some_ne_none url), iff_of_true ⟨more, rooted⟩ (Option.some_ne_none url)⟩
    rintro ⟨behind, same⟩
    exact spelling_ne_rooted named _ _ (same.symm.trans rooted)

end Server

namespace Conversion
namespace Setting
open Server Url
variable {setting : Setting} {document : Members Value} {converted : Converted} {url : String} {scheme rest : List Char}

/-- The base path that comes from an absolute URL begins at the root, unless reading refuses what stands behind the slashes of the
URL. Then it is the URL itself up to its tail, and the document has no host and no schemes. -/
theorem basePath_absolute_iff (formed : (Value.obj document).WellFormed) (made : setting.convert (.obj document) = .ok converted)
    (served : serverUrl? document = some url) (named : Scheme scheme) (spelled : url.toList = Plain.spelling scheme rest) :
    ∃ result, converted.document = .obj result ∧
      (∀ path, (Location.ofUrl setting.hostNames url).basePath = some path → Members.get? result "basePath" = some (.str path) ∧
        ((∃ more, path.toList = Plain.spelling scheme more) ↔
          Refused setting.hostNames (Kind.ofWritten scheme) ((Kind.ofWritten scheme).behindSlashes rest)) ∧
        ((∃ more, path.toList = '/' :: more) ↔
          ¬ Refused setting.hostNames (Kind.ofWritten scheme) ((Kind.ofWritten scheme).behindSlashes rest))) ∧
      (Refused setting.hostNames (Kind.ofWritten scheme) ((Kind.ofWritten scheme).behindSlashes rest) →
        Members.get? result "basePath" = some (.str (String.ofList (Plain.spelling scheme (beforeTail rest)))) ∧
        Members.get? result "host" = none ∧ Members.get? result "schemes" = none) := by
  obtain ⟨relocated, result, _, same, each⟩ := convert_told formed made
  have told (name : String) : told? setting.hostNames document name = (Location.ofUrl setting.hostNames url).told? name := by
    rw [told?, served, Option.bind_some]
  rw [← read?_eq_none_iff named spelled]
  refine ⟨result, same, ?_, ?_⟩
  · intro path placed
    refine ⟨(each "basePath" (by decide)).eq_told ?_, basePath_cases named spelled placed⟩
    rw [told, Location.told?, placed]
    rfl
  · intro refused
    have every (name : String) := told name
    rw [ofUrl_of_refused named spelled refused] at every
    exact ⟨(each "basePath" (by decide)).eq_told (every _), (each "host" (by decide)).eq_told (every _),
      (each "schemes" (by decide)).eq_told (every _)⟩

/-- An API whose port is a variable that no default replaces. -/
def templatedPort : Members Value :=
  [("openapi", .str "3.0.0"), ("paths", .obj []),
    ("servers", .arr [.obj [("url", .str "https://api.example.com:\x7bport\x7d/v1")]])]

def convertedTemplated : Members Value :=
  [("swagger", .str "2.0"), ("paths", .obj []), ("basePath", .str "https://api.example.com:\x7bport\x7d/v1")]

theorem templatedPort_converts :
    Setting.convert ⟨⟨none, Files.none⟩, 10⟩ (.obj templatedPort) = .ok ⟨.obj convertedTemplated, []⟩ := by
  decide +kernel

/-- The variable stands where the digits of the port do. -/
theorem templatedPort_refused : Refused .settled .web "api.example.com:\x7bport\x7d/v1".toList := by
  have colon : (located (Kind.web.beforePath "api.example.com:\x7bport\x7d/v1".toList)).2 = ':' :: "\x7bport\x7d".toList := by
    decide +kernel
  have next : (("\x7bport\x7d".toList ++ Kind.web.fromPath "api.example.com:\x7bport\x7d/v1".toList).dropWhile
      Char.isDigit).head? = some '\x7b' := by decide +kernel
  exact .port (by decide) colon (.stray next (by decide))

/-- Without a host the whole URL is the base path. -/
theorem templatedPort_swallowed :
    Members.get? convertedTemplated "basePath" = some (.str "https://api.example.com:\x7bport\x7d/v1") ∧
      Members.get? convertedTemplated "host" = none ∧ Members.get? convertedTemplated "schemes" = none := by
  have served : serverUrl? templatedPort = some "https://api.example.com:\x7bport\x7d/v1" := by decide +kernel
  have spelled : "https://api.example.com:\x7bport\x7d/v1".toList =
      Plain.spelling "https".toList "api.example.com:\x7bport\x7d/v1".toList := by decide +kernel
  obtain ⟨result, same, _, swallowed⟩ :=
    basePath_absolute_iff (by decide) templatedPort_converts served ⟨by decide, by decide⟩ spelled
  cases same
  exact swallowed templatedPort_refused

/-- Absolute URLs that are refused for a port, for a host in brackets, for a name and for having nobody. -/
def refusedUrls : List String :=
  ["https://api.example.com:\x7bport\x7d/v1", "https://api.example.com:65536/v1", "https://[::1/v1", "https://[1::2::3]/v1",
    "https://api example.com/v1", "https://%ff/v1", "https://xn--a/v1", "https://256.256.256.256/v1",
    "file://api example.com/v1", "shop://api example.com/v1", "https:///", "https://:443/v1", "shop://clerk@/v1"]

/-- All of them are mistaken for paths, and the document of one is converted with its scheme and its host in the base path. -/
theorem refused_mistaken : (∀ url ∈ refusedUrls, Location.ofUrl .settled url = ⟨none, none, some url⟩) ∧
    serverUrl? templatedPort = some "https://api.example.com:\x7bport\x7d/v1" ∧
    Setting.convert ⟨⟨none, Files.none⟩, 10⟩ (.obj templatedPort) = .ok ⟨.obj convertedTemplated, []⟩ ∧
    Members.get? convertedTemplated "basePath" = some (.str "https://api.example.com:\x7bport\x7d/v1") := by
  refine ⟨by decide +kernel, by decide +kernel, templatedPort_converts, rfl⟩

end Setting
end Conversion
end ApiDialect
