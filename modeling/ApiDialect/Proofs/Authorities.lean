import ApiDialect.Proofs.CanonicalOrder
import ApiDialect.Server
import Mathlib.Data.List.TakeDrop
import Mathlib.Data.List.TakeWhile

/-! Where a URL names its host. Reading a URL leaves out the port that its scheme implies; what is written there is a user,
a host and perhaps a port. -/

namespace ApiDialect

namespace Url
open Server (afterLast)

/-- Where a host is named, as it is written, and the port that stands there. -/
structure Authority where
  text : List Char
  port : Option Nat
  deriving DecidableEq

/-- What stands before the path. -/
def Kind.beforePath (kind : Kind) (text : List Char) : List Char :=
  text.takeWhile fun char => !kind.endsAuthority char

/-- The host and what stands behind it. -/
def located (whole : List Char) : List Char × List Char :=
  spanHost false (splitUser whole).2

/-- The authority that a text begins with. Behind a port it ends at a backslash also where that is no separator. -/
def Kind.authority (kind : Kind) (text : List Char) : Authority :=
  let whole := kind.beforePath text
  match (located whole).2 with
  | [] => ⟨whole, none⟩
  | _ :: behind => ⟨whole.take (whole.length - (behind.dropWhile Char.isDigit).length),
      (portNumber? (behind.takeWhile Char.isDigit)).join⟩

/-- The authority of a URL, behind the separators where reading looks for it. -/
def authority? (text : String) : Option Authority := do
  let text := trim text.toList
  let (scheme, rest) ← splitScheme? (withoutBreaks text)
  match Kind.ofScheme scheme with
  | .web => return Kind.web.authority (rest.dropWhile Kind.web.isSeparator)
  | .file => ((behindSeparator? ((text.dropWhile (· ≠ ':')).drop 1)).bind behindSeparator?).map fun rest =>
      ⟨withoutBreaks (Kind.file.beforePath rest), none⟩
  | .other =>
    match rest with
    | '/' :: '/' :: rest => return Kind.other.authority rest
    | _ => none

/-- How an authority with a host is written. Behind the user a host stands in brackets or has no colon, and a port is digits
behind a colon. -/
inductive Spelled : Authority → Prop
  | bracketed {text : List Char} (ends : text.getLast? = some ']') : Spelled ⟨text, none⟩
  | named {text : List Char} (clean : ':' ∉ afterLast '@' text) : Spelled ⟨text, none⟩
  | ported {text name digits : List Char} {port : Option Nat} (place : afterLast '@' text = name ++ ':' :: digits)
      (closed : name.head? = some '[' → name.getLast? = some ']') (numeric : ∀ digit ∈ digits, digit.isDigit = true)
      (known : portNumber? digits = some port) : Spelled ⟨text, port⟩

end Url

namespace Percent
variable {text : List Char} {char : Char} {byte : UInt8}

/-- Beyond ASCII every byte of a character has its highest bit set. -/
theorem high_of_mem_utf8EncodeChar (member : byte ∈ String.utf8EncodeChar char) (high : 128 ≤ char.toNat) :
    128 ≤ byte.toNat := by
  have large (first second : UInt8) (bound : 128 ≤ second.toNat) : 128 ≤ (first ||| second).toNat := by
    rw [UInt8.toNat_or]
    exact Nat.le_trans bound Nat.right_le_or
  rcases Char.utf8Size_eq char with one | two | three | four
  · have bound := UInt32.le_iff_toNat_le.mp (Char.utf8Size_eq_one_iff.mp one)
    exact absurd (Nat.lt_of_lt_of_le (Nat.lt_succ_of_le bound) high) (Nat.lt_irrefl _)
  · rw [String.utf8EncodeChar_eq_cons_cons two] at member
    simp only [List.mem_cons, List.not_mem_nil, or_false] at member
    rcases member with rfl | rfl <;> exact large _ _ (by decide)
  · rw [String.utf8EncodeChar_eq_cons_cons_cons three] at member
    simp only [List.mem_cons, List.not_mem_nil, or_false] at member
    rcases member with rfl | rfl | rfl <;> exact large _ _ (by decide)
  · rw [String.utf8EncodeChar_eq_cons_cons_cons_cons four] at member
    simp only [List.mem_cons, List.not_mem_nil, or_false] at member
    rcases member with rfl | rfl | rfl | rfl <;> exact large _ _ (by decide)

theorem utf8EncodeChar_of_ascii (plain : char.toNat < 128) : String.utf8EncodeChar char = [char.val.toUInt8] := by
  apply String.utf8EncodeChar_eq_singleton
  rw [Char.utf8Size_eq_one_iff, UInt32.le_iff_toNat_le]
  exact Nat.le_of_lt_succ plain

theorem bytes_singleton (plain : char.toNat < 128) : (String.singleton char).toUTF8.toList = [char.val.toUInt8] := by
  have stored : (String.singleton char).toUTF8 = ⟨#[char.val.toUInt8]⟩ := by
    rw [String.toUTF8, ← String.utf8Encode_toList, String.toList_singleton, List.utf8Encode, List.flatMap_singleton,
      utf8EncodeChar_of_ascii plain]
    rfl
  have size : ByteArray.size ⟨#[char.val.toUInt8]⟩ = 1 := rfl
  rw [stored, ByteArray.toList, ByteArray.toList.loop, if_pos (by rw [size]; exact Nat.one_pos), ByteArray.toList.loop,
    if_neg (by rw [size]; exact Nat.lt_irrefl 1)]
  rfl

/-- A byte below 128 is a character of its own wherever it stands. -/
theorem mem_of_mem_octets {text : String} (plain : char.toNat < 128) (member : char.val.toUInt8 ∈ Text.octets text) :
    char ∈ text.toList := by
  rw [Text.octets_eq_flatMap] at member
  obtain ⟨other, inside, byte⟩ := List.mem_flatMap.mp member
  have small : char.val.toUInt8.toNat = char.toNat := Nat.mod_eq_of_lt (Nat.lt_trans plain (by decide))
  by_cases ascii : other.toNat < 128
  · rw [utf8EncodeChar_of_ascii ascii, List.mem_singleton] at byte
    have same : char.val.toUInt8.toNat = other.val.toUInt8.toNat := congrArg UInt8.toNat byte
    have other : other.val.toUInt8.toNat = other.toNat := Nat.mod_eq_of_lt (Nat.lt_trans ascii (by decide))
    rw [small, other] at same
    exact Char.toNat_inj.mp same ▸ inside
  · have high := high_of_mem_utf8EncodeChar byte (Nat.le_of_not_lt ascii)
    omega

/-- Decoding takes percent signs and hexadecimal digits away, and nothing else. -/
theorem mem_decode (plain : char.toNat < 128) (other : Hex.value? char = none) (apart : char ≠ '%') (member : char ∈ text) :
    char.val.toUInt8 ∈ decode text := by
  have hexed (high low : Char) (code : Nat) (read : Hex.ofDigits? [high, low] = some code) : char ≠ high ∧ char ≠ low := by
    constructor <;> rintro rfl <;> simp [Hex.ofDigits?, other] at read
  fun_induction decode text with
  | case1 => cases member
  | case2 high low rest code read ih =>
    obtain ⟨first, second⟩ := hexed high low code read
    simp only [List.mem_cons, apart, first, second, false_or] at member
    exact List.mem_cons_of_mem _ (ih member)
  | case3 high low rest none ih =>
    exact List.mem_cons_of_mem _ (ih (List.mem_of_ne_of_mem apart member))
  | case4 first rest _ ih =>
    rcases List.mem_cons.mp member with rfl | inside
    · rw [bytes_singleton plain]
      exact List.mem_cons_self
    · exact List.mem_append_right _ (ih inside)

theorem mem_of_fromUTF8? {bytes : List UInt8} {decoded : String} (plain : char.toNat < 128)
    (read : String.fromUTF8? ⟨bytes.toArray⟩ = some decoded) (member : char.val.toUInt8 ∈ bytes) : char ∈ decoded.toList := by
  refine mem_of_mem_octets plain ?_
  unfold String.fromUTF8? at read
  split at read
  next valid =>
    cases read
    exact member
  next => cases read

end Percent

/-! ### Texts up to a character -/

namespace Text
variable {tail : List Char}

/-- Nothing is taken from a text behind the place where taking stops. -/
theorem takeWhile_append_of_stop {test : Char → Bool} (text : List Char) (stops : ∀ char ∈ tail.head?, test char = false) :
    (text ++ tail).takeWhile test = text.takeWhile test ∧ (text ++ tail).dropWhile test = text.dropWhile test ++ tail := by
  induction text with
  | nil =>
    cases tail with
    | nil => exact ⟨rfl, rfl⟩
    | cons char rest => simp [stops char rfl]
  | cons char rest ih => by_cases passes : test char = true <;> simp [passes, ih]

end Text

/-! ### What stands behind the last separator -/

namespace Server
variable {separator : Char} {front behind text : List Char}

/-- Up to the last separator, a text is cut off or it ends there. -/
theorem afterLast_cases (separator : Char) (text : List Char) : ∃ front, text = front ++ afterLast separator text ∧
    separator ∉ afterLast separator text ∧ (front = [] ∨ front.getLast? = some separator) := by
  refine ⟨(text.reverse.dropWhile (· ≠ separator)).reverse, ?_, ?_, ?_⟩
  · rw [afterLast, ← List.reverse_append, List.takeWhile_append_dropWhile, List.reverse_reverse]
  · intro member
    have apart := List.mem_takeWhile_imp (List.mem_reverse.mp member)
    exact of_decide_eq_true apart rfl
  · cases seen : text.reverse.dropWhile (· ≠ separator) with
    | nil => exact Or.inl rfl
    | cons char rest =>
      have stopped := List.head?_dropWhile_not (· ≠ separator) text.reverse
      rw [seen] at stopped
      refine Or.inr ?_
      rw [List.getLast?_reverse, List.head?_cons]
      simpa using stopped

theorem afterLast_append (clean : separator ∉ behind) (ends : front = [] ∨ front.getLast? = some separator) :
    afterLast separator (front ++ behind) = behind := by
  have stops : ∀ char ∈ front.reverse.head?, decide (char ≠ separator) = false := by
    intro char member
    rw [List.head?_reverse] at member
    rcases ends with rfl | last
    · cases member
    · cases member.symm.trans last
      simp
  have every : ∀ char ∈ behind.reverse, decide (char ≠ separator) = true := by
    intro char member
    refine decide_eq_true ?_
    rintro rfl
    exact clean (List.mem_reverse.mp member)
  rw [afterLast, List.reverse_append, (Text.takeWhile_append_of_stop behind.reverse stops).1, List.takeWhile_eq_self_iff.mpr every,
    List.reverse_reverse]

theorem afterLast_of_not_mem (clean : separator ∉ text) : afterLast separator text = text :=
  afterLast_append clean (Or.inl rfl)

/-- The end of a text is behind the last separator when it is none. -/
theorem getLast?_afterLast {last : Char} (ends : text.getLast? = some last) (other : last ≠ separator) :
    (afterLast separator text).getLast? = some last := by
  obtain ⟨front, whole, _, cut⟩ := afterLast_cases separator text
  cases seen : (afterLast separator text).getLast? with
  | some char =>
    rw [whole, List.getLast?_append, seen] at ends
    exact ends
  | none =>
    rw [whole, List.getLast?_append, seen, Option.none_or] at ends
    rcases cut with rfl | last
    · cases ends
    · exact absurd (Option.some.inj (ends.symm.trans last)) other

end Server

namespace Url
open Server (afterLast portDigits?)

variable {names : HostNames} {kind : Kind} {scheme : String} {text behind tail rest digits : List Char} {host : String}
  {port : Option Nat} {url : Url}

/-! ### What names a host -/

theorem bracketed?_ends (read : bracketed? text = some host) : text.getLast? = some ']' := by
  unfold bracketed? at read
  split at read
  next inner same =>
    rw [List.getLast?_eq_head?_reverse, same]
    rfl
  next => cases read

theorem not_mem_of_plainHost? (read : plainHost? text = some host) {char : Char} (forbidden : isForbidden char) :
    char ∉ text := by
  unfold plainHost? at read
  split at read
  next => cases read
  next clean =>
    intro member
    exact clean (List.any_eq_true.mpr ⟨char, member, forbidden⟩)

theorem isForbiddenDomain_of_mem {name : String} (read : asciiHost? name = some host) {char : Char} (member : char ∈ name.toList) :
    isForbiddenDomain char = false := by
  unfold asciiHost? at read
  split at read
  next => cases read
  next clean =>
    refine Bool.eq_false_iff.mpr fun forbidden => clean ?_
    rw [List.any_eq_true.mpr ⟨char, member, forbidden⟩, Bool.or_true]

/-- Neither decoding nor ASCII takes a mark away, and where one is left no domain is. -/
theorem not_mem_of_domain? (keeps : names.KeepsMarks) {mark : Char} (divides : mark ∈ [':', '@'])
    (read : domain? names text = some host) : mark ∉ text := by
  have marks : ∀ mark ∈ [':', '@'],
      mark.toNat < 128 ∧ Hex.value? mark = none ∧ mark ≠ '%' ∧ isForbiddenDomain mark = true := by
    rw [List.forall_mem_cons, List.forall_mem_singleton]
    decide
  obtain ⟨plain, other, apart, forbidden⟩ := marks mark divides
  intro member
  simp only [domain?, Option.bind_eq_bind, Option.bind_eq_some_iff] at read
  obtain ⟨name, decoded, ascii, written, read⟩ := read
  have meant : mark ∈ name.toList := Percent.mem_of_fromUTF8? plain decoded (Percent.mem_decode plain other apart member)
  rw [isForbiddenDomain_of_mem read (keeps.mem divides written meant)] at forbidden
  cases forbidden

/-- A host stands in brackets or holds no colon and no at sign. -/
theorem host?_cases (keeps : names.KeepsMarks) (read : host? names kind text = some host) :
    text.head? = some '[' ∧ text.getLast? = some ']' ∨ text.head? ≠ some '[' ∧ ':' ∉ text ∧ '@' ∉ text := by
  unfold host? at read
  split at read
  next opened => exact Or.inl ⟨opened, bracketed?_ends read⟩
  next bare =>
    refine Or.inr ⟨bare, ?_⟩
    split at read
    next => exact ⟨not_mem_of_plainHost? read (by decide), not_mem_of_plainHost? read (by decide)⟩
    next => exact ⟨not_mem_of_domain? keeps (by decide) read, not_mem_of_domain? keeps (by decide) read⟩

/-! ### Parts of an authority -/

theorem spanHost_append (inside : Bool) (text : List Char) : (spanHost inside text).1 ++ (spanHost inside text).2 = text := by
  fun_induction spanHost inside text with
  | case1 => rfl
  | case2 => rfl
  | case3 inside char rest _ now host behind same ih =>
    rw [same] at ih
    exact congrArg (char :: ·) ih

/-- A host ends at a colon or with the text. -/
theorem spanHost_behind (inside : Bool) (text : List Char) :
    (spanHost inside text).2 = [] ∨ ∃ rest, (spanHost inside text).2 = ':' :: rest := by
  fun_induction spanHost inside text with
  | case1 => exact Or.inl rfl
  | case2 inside char rest ends =>
    obtain ⟨colon, _⟩ := (Bool.and_eq_true ..).mp ends
    exact Or.inr ⟨rest, by rw [of_decide_eq_true colon]⟩
  | case3 inside char rest _ now host behind same ih =>
    rw [same] at ih
    exact ih

/-- A user is left out up to the last at sign. -/
theorem splitUser_eq_afterLast (whole : List Char) : (splitUser whole).2 = afterLast '@' whole := by
  simp only [splitUser, afterLast]
  split
  next all =>
    have kept : whole.reverse.takeWhile (· ≠ '@') = whole.reverse := by
      refine (List.takeWhile_prefix _).eq_of_length ?_
      simpa using all
    rw [kept, List.reverse_reverse]
  next => rfl

/-- Behind the user stands the host, and what is behind that begins with a colon. -/
theorem located_append (whole : List Char) : (located whole).1 ++ (located whole).2 = afterLast '@' whole := by
  rw [located, spanHost_append, splitUser_eq_afterLast]

theorem located_behind (whole : List Char) : (located whole).2 = [] ∨ ∃ rest, (located whole).2 = ':' :: rest :=
  spanHost_behind false (splitUser whole).2

/-- A port without digits is none, on either side. -/
theorem portDigits?_of_digits (numeric : ∀ digit ∈ digits, digit.isDigit = true) :
    portDigits? digits = (portNumber? digits).join := by
  cases digits with
  | nil => rfl
  | cons first rest =>
    have unsigned : first ≠ '+' := by
      rintro rfl
      exact absurd (numeric '+' List.mem_cons_self) (by decide)
    have whole : (first :: rest).all Char.isDigit = true := List.all_eq_true.mpr numeric
    unfold portDigits?
    split
    next signed same => exact absurd (List.cons.inj same).1 unsigned
    next =>
      simp only [whole, portNumber?, List.isEmpty_cons, Bool.not_true, Bool.or_self, Bool.false_eq_true, ↓reduceIte]
      split <;> rfl

/-- An ending of an authority is no colon and no digit. -/
theorem plain_of_endsAuthority {char : Char} (ends : kind.endsAuthority char = true) : char ≠ ':' ∧ char.isDigit = false := by
  simp only [Kind.endsAuthority, Kind.isSeparator, isTail, Bool.or_eq_true, Bool.and_eq_true, decide_eq_true_eq] at ends
  rcases ends with (rfl | ⟨rfl, _⟩) | rfl | rfl <;> decide

section
variable (ends : ∀ char ∈ tail.head?, kind.endsAuthority char = true)
include ends

/-- Where the host ends with the authority there is no port. -/
theorem port?_of_tail (read : port? tail = some (port, rest)) : port = none := by
  unfold port? at read
  split at read
  next => exact absurd rfl (plain_of_endsAuthority (ends ':' rfl)).1
  next => cases read; rfl

theorem port?_of_colon (read : port? (':' :: (behind ++ tail)) = some (port, rest)) :
    portNumber? (behind.takeWhile Char.isDigit) = some port ∧
      ∀ char ∈ (behind.dropWhile Char.isDigit).head?, char = '/' ∨ char = '\\' ∨ isTail char = true := by
  have stop := fun char member => (plain_of_endsAuthority (ends char member)).2
  obtain ⟨taken, dropped⟩ := Text.takeWhile_append_of_stop behind stop
  simp only [port?, List.span_eq_takeWhile_dropWhile, taken, dropped] at read
  split at read
  next => cases read
  next stops =>
    obtain ⟨number, known, same⟩ := Option.map_eq_some_iff.mp read
    cases same
    refine ⟨known, ?_⟩
    intro char member
    have first : char ∈ (behind.dropWhile Char.isDigit ++ tail).head? := by
      rw [List.head?_append, Option.mem_def.mp member]
      rfl
    rw [Option.mem_def.mp first] at stops
    simpa [or_iff_not_imp_left] using stops

end

/-! ### Reading an authority -/

theorem withAuthority?_eq_some (read : withAuthority? names kind scheme text = some url) (placed : url.host = some host) :
    ∃ port rest, url.scheme = scheme ∧ host? names kind (located (kind.beforePath text)).1 = some host ∧
      port? ((located (kind.beforePath text)).2 ++ text.dropWhile fun char => !kind.endsAuthority char) = some (port, rest) ∧
      url.port = if port = defaultPort? scheme then none else port := by
  simp only [withAuthority?, List.span_eq_takeWhile_dropWhile] at read
  split at read
  next =>
    split at read
    next => cases read
    next =>
      cases read
      cases placed
  next =>
    simp only [Option.bind_eq_bind, Option.bind_eq_some_iff] at read
    obtain ⟨name, accepted, ⟨port, rest⟩, known, made⟩ := read
    cases made
    cases placed
    exact ⟨port, rest, rfl, accepted, known, rfl⟩

/-- Behind the colon of a port the authority goes on for the digits only. -/
theorem authority_of_colon (colon : (located (kind.beforePath text)).2 = ':' :: behind) :
    afterLast '@' (kind.authority text).text = (located (kind.beforePath text)).1 ++ ':' :: behind.takeWhile Char.isDigit ∧
      (kind.authority text).port = (portNumber? (behind.takeWhile Char.isDigit)).join := by
  obtain ⟨front, whole, clean, cut⟩ := Server.afterLast_cases '@' (kind.beforePath text)
  have place : afterLast '@' (kind.beforePath text) =
      (located (kind.beforePath text)).1 ++ ':' :: (behind.takeWhile Char.isDigit ++ behind.dropWhile Char.isDigit) := by
    rw [List.takeWhile_append_dropWhile, ← colon, located_append]
  generalize kept : (located (kind.beforePath text)).1 ++ ':' :: behind.takeWhile Char.isDigit = name
  have divided : afterLast '@' (kind.beforePath text) = name ++ behind.dropWhile Char.isDigit := by
    rw [place, ← kept, List.append_assoc, List.cons_append]
  have written : (kind.authority text).text = front ++ name := by
    have measure : (kind.beforePath text).length - (behind.dropWhile Char.isDigit).length = (front ++ name).length := by
      rw [whole, divided, ← List.append_assoc, List.length_append, Nat.add_sub_cancel]
    simp only [Kind.authority, colon, measure]
    conv_lhs => rw [whole, divided, ← List.append_assoc]
    exact List.take_left
  have apart : '@' ∉ name := fun member => clean (divided ▸ List.mem_append_left _ member)
  refine ⟨?_, by simp only [Kind.authority, colon]⟩
  rw [written, Server.afterLast_append apart cut]

theorem authority_of_tail (nothing : (located (kind.beforePath text)).2 = []) :
    kind.authority text = ⟨kind.beforePath text, none⟩ ∧
      afterLast '@' (kind.beforePath text) = (located (kind.beforePath text)).1 := by
  constructor
  · simp only [Kind.authority, nothing]
  · rw [← located_append, nothing, List.append_nil]

theorem endsAuthority_of_head (char : Char) (member : char ∈ (text.dropWhile fun char => !kind.endsAuthority char).head?) :
    kind.endsAuthority char = true := by
  have stopped := List.head?_dropWhile_not (fun char => !kind.endsAuthority char) text
  rw [Option.mem_def.mp member] at stopped
  simpa using stopped

/-- An authority with a host is written in one of the known ways, and reading keeps a port that its scheme does not imply. -/
theorem withAuthority?_spelled (keeps : names.KeepsMarks) (read : withAuthority? names kind scheme text = some url)
    (placed : url.host = some host) : url.scheme = scheme ∧ Spelled (kind.authority text) ∧
      url.port = if (kind.authority text).port = defaultPort? scheme then none else (kind.authority text).port := by
  obtain ⟨port, rest, same, accepted, known, left⟩ := withAuthority?_eq_some read placed
  refine ⟨same, ?_⟩
  rcases located_behind (kind.beforePath text) with nothing | ⟨behind, colon⟩
  · obtain ⟨whole, place⟩ := authority_of_tail nothing
    rw [nothing, List.nil_append] at known
    obtain rfl := port?_of_tail endsAuthority_of_head known
    rw [whole]
    refine ⟨?_, left⟩
    rcases host?_cases keeps accepted with ⟨_, closed⟩ | ⟨_, clean, _⟩
    · obtain ⟨front, parts, _⟩ := Server.afterLast_cases '@' (kind.beforePath text)
      refine .bracketed ?_
      rw [parts, List.getLast?_append, place, closed, Option.some_or]
    · exact .named (place ▸ clean)
  · obtain ⟨place, number⟩ := authority_of_colon colon
    rw [colon, List.cons_append] at known
    obtain ⟨digits, _⟩ := port?_of_colon endsAuthority_of_head known
    rw [digits, Option.join_some] at number
    rw [number]
    refine ⟨?_, left⟩
    generalize kind.authority text = authority at place number
    obtain ⟨text, _⟩ := authority
    cases number
    refine .ported place (fun opened => ?_) (fun digit member => List.mem_takeWhile_imp member) digits
    rcases host?_cases keeps accepted with ⟨_, closed⟩ | ⟨bare, _⟩
    · exact closed
    · exact absurd opened bare

/-- Without a backslash there is no other end than the path. -/
theorem authority_text_of_clean (clean : '\\' ∉ text) (read : withAuthority? names kind scheme text = some url)
    (placed : url.host = some host) : (kind.authority text).text = kind.beforePath text := by
  obtain ⟨port, rest, _, _, known, _⟩ := withAuthority?_eq_some read placed
  rcases located_behind (kind.beforePath text) with nothing | ⟨behind, colon⟩
  · rw [(authority_of_tail nothing).1]
  · have inside : behind <:+ kind.beforePath text := by
      obtain ⟨front, whole, _⟩ := Server.afterLast_cases '@' (kind.beforePath text)
      rw [whole, ← located_append, colon]
      exact (List.suffix_cons ..).trans ((List.suffix_append ..).trans (List.suffix_append ..))
    rw [colon, List.cons_append] at known
    have stops := (port?_of_colon endsAuthority_of_head known).2
    have ended : behind.dropWhile Char.isDigit = [] := by
      cases seen : behind.dropWhile Char.isDigit with
      | nil => rfl
      | cons char more =>
        have member : char ∈ kind.beforePath text :=
          inside.subset ((List.dropWhile_suffix _).subset (seen ▸ List.mem_cons_self))
        have goes : kind.endsAuthority char = false := by simpa using List.mem_takeWhile_imp member
        simp only [Kind.endsAuthority, Kind.isSeparator, Bool.or_eq_false_iff] at goes
        rcases stops char (by rw [seen]; rfl) with rfl | rfl | tail
        · cases goes.1.1
        · exact absurd ((List.takeWhile_prefix _).subset member) clean
        · cases goes.2.symm.trans tail
    simp only [Kind.authority, colon, ended, List.length_nil, Nat.sub_zero, List.take_length]

/-- A file is never behind a port. -/
theorem file?_eq_some (read : file? names text = some url) (placed : url.host = some host) :
    ∃ rest name, (behindSeparator? text).bind behindSeparator? = some rest ∧
      host? names .file (withoutBreaks (Kind.file.beforePath rest)) = some name ∧ url.scheme = "file" ∧ url.port = none := by
  unfold file? at read
  split at read
  next => cases read; cases placed
  next first begun =>
    split at read
    next => cases read; cases placed
    next rest again =>
      simp only [List.span_eq_takeWhile_dropWhile] at read
      split at read
      next => cases read; cases placed
      next =>
        obtain ⟨name, accepted, made⟩ := Option.map_eq_some_iff.mp read
        refine ⟨rest, name, by rw [begun]; exact again, accepted, ?_⟩
        split at made
        next => cases made; cases placed
        next => cases made; exact ⟨rfl, rfl⟩

/-- Every URL with a host has an authority, and reading forgets of its port only what its scheme implies. -/
theorem read?_spelled {text : String} (keeps : names.KeepsMarks) (read : read? names text = some url)
    (placed : url.host = some host) : ∃ authority, authority? text = some authority ∧ Spelled authority ∧
      url.port = if authority.port = defaultPort? url.scheme then none else authority.port := by
  simp only [read?, Option.bind_eq_bind, Option.bind_eq_some_iff] at read
  obtain ⟨⟨scheme, rest⟩, begun, read⟩ := read
  simp only [authority?, Option.bind_eq_bind, begun, Option.bind_some]
  generalize Kind.ofScheme scheme = kind at read
  cases kind with
  | web =>
    obtain ⟨rfl, spelled, left⟩ := withAuthority?_spelled keeps read placed
    exact ⟨_, rfl, spelled, left⟩
  | file =>
    obtain ⟨rest, name, behind, accepted, file, left⟩ := file?_eq_some read placed
    refine ⟨_, Option.map_eq_some_iff.mpr ⟨rest, behind, rfl⟩, ?_, by rw [file, left]; rfl⟩
    rcases host?_cases keeps accepted with ⟨_, closed⟩ | ⟨_, clean, apart⟩
    · exact .bracketed closed
    · exact .named (by rwa [Server.afterLast_of_not_mem apart])
  | other =>
    simp only [other?] at read
    split at read
    next rest =>
      obtain ⟨rfl, spelled, left⟩ := withAuthority?_spelled keeps read placed
      exact ⟨_, rfl, spelled, left⟩
    next => cases read; cases placed
    next => cases read; cases placed

end Url
end ApiDialect
