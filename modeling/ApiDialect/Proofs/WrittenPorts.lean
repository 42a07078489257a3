import ApiDialect.Proofs.Authorities
import ApiDialect.Proofs.Texts

/-! A URL forgets a port that its scheme implies, so the port is read a second time, from the text. Both readings agree where
they look at the same authority. In text that is spelled plainly they always do; blanks, breaks, backslashes and slashes that
reading repairs can part them, and then a port is lost or one is found where there is none. -/

namespace ApiDialect
open Url

namespace Server
variable {names : HostNames} {authority : Authority} {text : String} {url : Url} {host : String} {first second : Option Nat}

/-- What the second reading takes for the authority. -/
def separated? (text : String) : Option (List Char) :=
  (Text.behindChars? "://".toList text.toList).map fun rest =>
    rest.takeWhile fun char => !(char = '/' || char = '?' || char = '#')

/-- The port at the end of an authority. -/
def endingPort? (authority : List Char) : Option Nat :=
  let place := afterLast '@' authority
  if place.contains ':' then
    let port := afterLast ':' place
    let host := place.take (place.length - port.length - 1)
    if host.head? = some '[' && host.getLast? ≠ some ']' then none else portDigits? port
  else none

theorem writtenPort?_eq (text : String) : writtenPort? text = (separated? text).bind endingPort? := by
  unfold writtenPort? separated?
  cases Text.behindChars? "://".toList text.toList <;> rfl

/-- A port ends in a digit. -/
theorem portDigits?_eq_none {text : List Char} {last : Char} (ends : text.getLast? = some last) (other : last.isDigit = false) :
    portDigits? text = none := by
  have lone (digits : List Char) (ends : digits.getLast? = some last) : (digits.isEmpty || !digits.all Char.isDigit) = true := by
    rw [Bool.or_eq_true, Bool.not_eq_true', List.all_eq_false]
    exact Or.inr ⟨last, List.mem_of_getLast? ends, by rw [other]; decide⟩
  unfold portDigits?
  split
  next rest =>
    cases rest with
    | nil => rfl
    | cons first more => exact if_pos (lone (first :: more) (by rwa [List.getLast?_cons_cons] at ends))
  next => exact if_pos (lone text ends)

theorem endingPort?_of_spelled (spelled : Spelled authority) : endingPort? authority.text = authority.port := by
  cases spelled with
  | @bracketed text ends =>
    have place : (afterLast '@' text).getLast? = some ']' := getLast?_afterLast ends (by decide)
    have behind : (afterLast ':' (afterLast '@' text)).getLast? = some ']' := getLast?_afterLast place (by decide)
    have port := portDigits?_eq_none behind (by decide)
    simp only [endingPort?, port, ite_self]
  | named clean =>
    rw [endingPort?, if_neg]
    simpa using clean
  | @ported text name digits port place closed numeric known =>
    have apart : ':' ∉ digits := fun member => absurd (numeric ':' member) (by decide)
    have behind : afterLast ':' (name ++ ':' :: digits) = digits := by
      rw [List.append_cons]
      exact afterLast_append apart (Or.inr List.getLast?_concat)
    have before : (name ++ ':' :: digits).take ((name ++ ':' :: digits).length - digits.length - 1) = name := by
      have measure : (name ++ ':' :: digits).length - digits.length - 1 = name.length := by
        simp only [List.length_append, List.length_cons]
        omega
      rw [measure, List.take_left]
    simp only [endingPort?, place, behind, before]
    rw [if_pos (by simp), if_neg (by simpa using closed), portDigits?_of_digits numeric, known, Option.join_some]

/-- A host, with a colon before its port if it has one. -/
def hostPort (host : String) (port : Option Nat) : String :=
  match port with
  | some port => host ++ ":" ++ toString port
  | none => host

theorem hostPort_inj : hostPort host first = hostPort host second ↔ first = second := by
  refine ⟨fun same => ?_, congrArg _⟩
  have behind (number : Nat) : hostPort host (some number) ≠ host := by
    intro same
    have measure := congrArg String.length same
    simp only [hostPort, String.length_append] at measure
    have colon : ":".length = 1 := rfl
    omega
  cases first with
  | none =>
    cases second with
    | none => rfl
    | some number => exact absurd same.symm (behind number)
  | some number =>
    cases second with
    | none => exact absurd same (behind number)
    | some other =>
      have digits : Nat.toDigits 10 number = Nat.toDigits 10 other := by
        have texts : toString number = toString other := (String.append_right_inj _).mp same
        simpa only [Nat.toString_eq_repr, Nat.repr_eq_ofList_toDigits, String.ofList_inj] using texts
      rw [← Nat.ofDigitChars_ten_toDigits (n := number), digits, Nat.ofDigitChars_ten_toDigits]

theorem ofUrl_host (read : Url.read? names text = some url) :
    (Location.ofUrl names text).host = url.host.map fun host => hostPort host (url.port.or (writtenPort? text)) := by
  unfold Location.ofUrl
  rw [read]
  rfl

end Server

/-! ### Plain spelling -/

namespace Text

/-- A mark that does not stand before a pattern is found with it. -/
theorem behindChars?_append {mark : Char} {front : List Char} (apart : mark ∉ front) (pattern rest : List Char) :
    behindChars? (mark :: pattern) (front ++ mark :: (pattern ++ rest)) = some rest := by
  induction front with
  | nil =>
    rw [List.nil_append, behindChars?, ← List.cons_append, stripChars?_append, Option.some_or]
  | cons char more ih =>
    obtain ⟨other, apart⟩ := List.ne_and_not_mem_of_not_mem_cons apart
    rw [List.cons_append, behindChars?, stripChars?, if_neg (Ne.symm other), ih apart, Option.none_or]

theorem takeWhile_congr {first second : Char → Bool} {text : List Char} (alike : ∀ char ∈ text, first char = second char) :
    text.takeWhile first = text.takeWhile second := by
  induction text with
  | nil => rfl
  | cons char rest ih =>
    obtain ⟨here, later⟩ := List.forall_mem_cons.mp alike
    rw [List.takeWhile_cons, List.takeWhile_cons, here, ih later]

end Text

namespace Url
variable {names : HostNames} {scheme rest text : List Char} {host : String} {url : Url}

/-- A scheme and what stands behind its two slashes, with nothing in them that reading would repair. -/
structure Plain (scheme rest : List Char) : Prop where
  scheme : scheme.all isSchemeChar
  authority : rest.head? ≠ some '/'
  ends : rest.getLast?.all (' ' < ·)
  clean : rest.all fun char => char ≠ '\\' && !isBreak char

/-- Blanks and breaks come before every character of a scheme. -/
theorem visible_of_isSchemeChar {char : Char} (allowed : isSchemeChar char = true) : ' ' < char := by
  have every : ∀ code ≤ 32, isSchemeChar (Char.ofNat code) = false := by decide
  refine Char.not_le.mp fun low => ?_
  have none := every char.toNat (UInt32.le_iff_toNat_le.mp low)
  rw [Char.ofNat_toNat, allowed] at none
  cases none

theorem isBreak_of_visible {char : Char} (visible : ' ' < char) : isBreak char = false := by
  refine Bool.eq_false_iff.mpr fun broken => ?_
  simp only [isBreak, Bool.or_eq_true, decide_eq_true_eq] at broken
  rcases broken with (rfl | rfl) | rfl <;> exact absurd visible (by decide)

/-- Of the blanks and controls around a text those at its end. -/
def trimEnd (text : List Char) : List Char :=
  (text.reverse.dropWhile (· ≤ ' ')).reverse

theorem trimEnd_of_visible (last : text.getLast?.all (' ' < ·)) : trimEnd text = text := by
  have stops : ∀ char ∈ text.reverse.head?, decide (char ≤ ' ') = false := by
    intro char member
    rw [List.head?_reverse, Option.mem_def] at member
    rw [member] at last
    exact decide_eq_false (Char.not_le.mpr (of_decide_eq_true last))
  have kept : text.reverse.dropWhile (· ≤ ' ') = text.reverse := (Text.takeWhile_append_of_stop [] stops).2
  rw [trimEnd, kept, List.reverse_reverse]

/-- A URL with a scheme and an authority. -/
def Plain.spelling (scheme rest : List Char) : List Char :=
  scheme ++ ':' :: '/' :: '/' :: rest

/-! A scheme has nothing in it that reading would repair, so what reading repairs stands behind it. -/

section
variable (allowed : scheme.all isSchemeChar)
include allowed

theorem isSchemeChar_of_mem {char : Char} (member : char ∈ scheme) : isSchemeChar char = true :=
  List.all_eq_true.mp allowed char member

theorem trim_spelling : trim (Plain.spelling scheme rest) = Plain.spelling scheme (trimEnd rest) := by
  have first : ∀ char ∈ (Plain.spelling scheme rest).head?, decide (char ≤ ' ') = false := by
    intro char member
    refine decide_eq_false (Char.not_le.mpr ?_)
    cases scheme with
    | nil => cases member; decide
    | cons letter more =>
      obtain rfl : letter = char := Option.some.inj member
      exact visible_of_isSchemeChar (isSchemeChar_of_mem allowed List.mem_cons_self)
  have front : (Plain.spelling scheme rest).dropWhile (· ≤ ' ') = Plain.spelling scheme rest :=
    (Text.takeWhile_append_of_stop [] first).2
  have turned : (Plain.spelling scheme rest).reverse = rest.reverse ++ '/' :: '/' :: ':' :: scheme.reverse := by
    simp [Plain.spelling]
  have stops : ∀ char ∈ ('/' :: '/' :: ':' :: scheme.reverse).head?, decide (char ≤ ' ') = false := by
    intro char member
    cases member
    decide
  rw [trim, front, turned, (Text.takeWhile_append_of_stop rest.reverse stops).2]
  simp [Plain.spelling, trimEnd]

theorem withoutBreaks_spelling : withoutBreaks (Plain.spelling scheme rest) = Plain.spelling scheme (withoutBreaks rest) := by
  have unbroken : withoutBreaks scheme = scheme := by
    refine List.filter_eq_self.mpr ?_
    intro char member
    rw [isBreak_of_visible (visible_of_isSchemeChar (isSchemeChar_of_mem allowed member)), Bool.not_false]
  rw [withoutBreaks] at unbroken
  rw [Plain.spelling, withoutBreaks, List.filter_append, unbroken]
  rfl

theorem span_spelling : (Plain.spelling scheme rest).span isSchemeChar = (scheme, ':' :: '/' :: '/' :: rest) := by
  have stops : ∀ char ∈ (':' :: '/' :: '/' :: rest).head?, isSchemeChar char = false := by
    intro char member
    cases member
    decide
  have every := fun char (member : char ∈ scheme) => isSchemeChar_of_mem allowed member
  obtain ⟨taken, dropped⟩ := Text.takeWhile_append_of_stop scheme stops
  rw [List.span_eq_takeWhile_dropWhile, Plain.spelling, taken, dropped, List.takeWhile_eq_self_iff.mpr every,
    List.dropWhile_eq_nil_iff.mpr every, List.nil_append]

theorem dropWhile_spelling : ((Plain.spelling scheme rest).dropWhile (· ≠ ':')).drop 1 = '/' :: '/' :: rest := by
  have stops : ∀ char ∈ (':' :: '/' :: '/' :: rest).head?, decide (char ≠ ':') = false := by
    intro char member
    cases member
    decide
  have apart : ∀ char ∈ scheme, decide (char ≠ ':') = true := by
    intro char member
    refine decide_eq_true ?_
    rintro rfl
    exact absurd (isSchemeChar_of_mem allowed member) (by decide)
  rw [Plain.spelling, (Text.takeWhile_append_of_stop scheme stops).2, List.dropWhile_eq_nil_iff.mpr apart]
  rfl

theorem behindChars?_spelling : Text.behindChars? "://".toList (Plain.spelling scheme rest) = some rest := by
  have apart : ':' ∉ scheme := fun member => absurd (isSchemeChar_of_mem allowed member) (by decide)
  exact Text.behindChars?_append apart "//".toList rest

end

namespace Plain
variable (plain : Plain scheme rest)
include plain

theorem clean_of_mem {char : Char} (member : char ∈ rest) : char ≠ '\\' ∧ isBreak char = false := by
  simpa using List.all_eq_true.mp plain.clean char member

theorem trim_eq : trim (spelling scheme rest) = spelling scheme rest := by
  rw [trim_spelling plain.scheme, trimEnd_of_visible plain.ends]

theorem withoutBreaks_eq : withoutBreaks (spelling scheme rest) = spelling scheme rest := by
  have unbroken : withoutBreaks rest = rest := by
    refine List.filter_eq_self.mpr ?_
    intro char member
    rw [(plain.clean_of_mem member).2, Bool.not_false]
  rw [withoutBreaks_spelling plain.scheme, unbroken]

theorem splitScheme?_eq {result : String × List Char} (split : splitScheme? (spelling scheme rest) = some result) :
    result.2 = '/' :: '/' :: rest := by
  unfold splitScheme? at split
  split at split
  next first more same =>
    rw [span_spelling plain.scheme] at split
    split at split
    next => cases split; rfl
    next => cases split
  next => cases split

theorem beforePath_eq (kind : Kind) :
    kind.beforePath rest = rest.takeWhile fun char => !(char = '/' || char = '?' || char = '#') := by
  refine Text.takeWhile_congr fun char member => ?_
  simp [Kind.endsAuthority, Kind.isSeparator, isTail, (plain.clean_of_mem member).1, Bool.and_assoc]

end Plain

/-- In a URL that is spelled plainly both readings look at the same authority. -/
theorem separated?_of_plain {text : String} {authority : Authority} (plain : Plain scheme rest)
    (spelled : text.toList = Plain.spelling scheme rest) (read : read? names text = some url) (placed : url.host = some host)
    (found : authority? text = some authority) : Server.separated? text = some authority.text := by
  simp only [read?, authority?, Option.bind_eq_bind, spelled, plain.trim_eq, plain.withoutBreaks_eq,
    dropWhile_spelling plain.scheme] at read found
  obtain ⟨⟨name, behind⟩, begun, read⟩ := Option.bind_eq_some_iff.mp read
  obtain rfl : behind = '/' :: '/' :: rest := plain.splitScheme?_eq begun
  rw [begun, Option.bind_some] at found
  have clean : '\\' ∉ rest := fun member => (plain.clean_of_mem member).1 rfl
  have kept : authority.text = rest.takeWhile fun char => !(char = '/' || char = '?' || char = '#') := by
    generalize Kind.ofScheme name = kind at read found
    cases kind with
    | web =>
      have stops : ∀ char ∈ rest.head?, Kind.web.isSeparator char = false := by
        intro char member
        have other : char ≠ '/' := fun slash => plain.authority (slash ▸ member)
        simp [Kind.isSeparator, other, (plain.clean_of_mem (List.mem_of_mem_head? member)).1]
      have start : ('/' :: '/' :: rest).dropWhile Kind.web.isSeparator = rest :=
        (Text.takeWhile_append_of_stop ['/', '/'] stops).2
      rw [start] at read found
      cases found
      rw [authority_text_of_clean clean read placed, plain.beforePath_eq]
    | file =>
      cases found
      have whole : withoutBreaks (Kind.file.beforePath rest) = Kind.file.beforePath rest := by
        refine List.filter_eq_self.mpr fun char member => ?_
        rw [(plain.clean_of_mem ((List.takeWhile_prefix _).subset member)).2]
        rfl
      exact whole.trans (plain.beforePath_eq _)
    | other =>
      cases found
      rw [authority_text_of_clean clean read placed, plain.beforePath_eq]
  rw [Server.separated?, spelled, behindChars?_spelling plain.scheme, kept, Option.map_some]

end Url

namespace Server
variable {names : HostNames} {text : String} {url : Url} {host : String}

/-- A host gets the port that is written in its authority exactly when the URL has kept that port or it is found again in the
text, as it is when both readings look at the same authority. They do so in every URL that is spelled plainly. -/
theorem ofUrl_keeps_port_iff (keeps : names.KeepsMarks) (read : Url.read? names text = some url) (placed : url.host = some host) :
    ∃ authority, Url.authority? text = some authority ∧ Url.Spelled authority ∧
      ((Location.ofUrl names text).host = some (hostPort host authority.port) ↔
        authority.port ≠ none ∧ authority.port ≠ Url.defaultPort? url.scheme ∨ writtenPort? text = authority.port) ∧
      (separated? text = some authority.text → (Location.ofUrl names text).host = some (hostPort host authority.port)) ∧
      ∀ scheme rest, Url.Plain scheme rest → text.toList = Url.Plain.spelling scheme rest →
        (Location.ofUrl names text).host = some (hostPort host authority.port) := by
  obtain ⟨authority, found, spelled, left⟩ := Url.read?_spelled keeps read placed
  have kept : (Location.ofUrl names text).host = some (hostPort host authority.port) ↔
      authority.port ≠ none ∧ authority.port ≠ Url.defaultPort? url.scheme ∨ writtenPort? text = authority.port := by
    rw [ofUrl_host read, placed, Option.map_some, Option.some_inj, hostPort_inj, left]
    by_cases implied : authority.port = Url.defaultPort? url.scheme
    · rw [if_pos implied, Option.none_or]
      exact ⟨Or.inr, fun held => held.resolve_left fun written => written.2 implied⟩
    · rw [if_neg implied]
      cases seen : authority.port with
      | none => simp
      | some number =>
        rw [seen] at implied
        exact iff_of_true rfl (Or.inl ⟨Option.some_ne_none number, implied⟩)
  have agree (same : separated? text = some authority.text) :
      (Location.ofUrl names text).host = some (hostPort host authority.port) := by
    refine kept.mpr (Or.inr ?_)
    rw [writtenPort?_eq, same, Option.bind_some, endingPort?_of_spelled spelled]
  exact ⟨authority, found, spelled, kept, agree, fun scheme rest plain spelling =>
    agree (Url.separated?_of_plain plain spelling read placed found)⟩

/-- A gateway with a user, whose name is not in ASCII. -/
def gateway : String :=
  "https://user:pw@bücher.example:443/v1"

/-- The port that the scheme implies is read again from the text. -/
theorem gateway_keeps_port :
    HostNames.settled.KeepsMarks ∧ Url.read? .settled gateway = some ⟨"https", some "xn--bcher-kva.example", none, "/v1"⟩ ∧
    Url.authority? gateway = some ⟨"user:pw@bücher.example:443".toList, some 443⟩ ∧
    (Location.ofUrl .settled gateway).host = some "xn--bcher-kva.example:443" := by
  have read : Url.read? .settled gateway = some ⟨"https", some "xn--bcher-kva.example", none, "/v1"⟩ := by decide +kernel
  have named : Url.authority? gateway = some ⟨"user:pw@bücher.example:443".toList, some 443⟩ := by decide +kernel
  have plain : Url.Plain "https".toList "user:pw@bücher.example:443/v1".toList :=
    ⟨by decide, by decide, by decide, by decide⟩
  obtain ⟨authority, found, _, _, _, kept⟩ := ofUrl_keeps_port_iff HostNames.settled_keepsMarks read rfl
  cases found.symm.trans named
  exact ⟨HostNames.settled_keepsMarks, read, named, (kept _ _ plain (by decide +kernel)).trans (by decide +kernel)⟩

/-- A gateway with a blank behind it, which reading takes away. -/
def blankGateway : String :=
  "https://api.example.com:443 "

/-- One slash is repaired to two, so that the first two slashes are those of another URL. -/
def detour : String :=
  "https:/api.example.com/go?to=://files:8080"

/-- A port is lost, and a port is found where the authority has none. -/
theorem gateway_loses_port : Url.read? .settled blankGateway = some ⟨"https", some "api.example.com", none, "/"⟩ ∧
    Url.authority? blankGateway = some ⟨"api.example.com:443".toList, some 443⟩ ∧
    (Location.ofUrl .settled blankGateway).host = some "api.example.com" ∧
    Url.read? .settled detour = some ⟨"https", some "api.example.com", none, "/go"⟩ ∧
    Url.authority? detour = some ⟨"api.example.com".toList, none⟩ ∧
    (Location.ofUrl .settled detour).host = some "api.example.com:8080" := by
  decide +kernel

end Server
end ApiDialect
