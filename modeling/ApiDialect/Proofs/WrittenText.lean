import ApiDialect.CommandLine.Reply
import ApiDialect.Proofs.BlockEnds
import ApiDialect.Proofs.FlowText
import ApiDialect.Proofs.Stability

/-! What the program writes is what has been converted. The white space at the end of the text is given
up for one line feed, which JSON never notices; in block style it may belong to the last scalar. -/

namespace ApiDialect
open Rewriting Value

theorem Dialect.repair_obj (dialect : Dialect) (members : Members Value) :
    ∃ repaired, dialect.repair (.obj members) = .obj repaired := by
  cases dialect with
  | openApi3 => exact ⟨members, rfl⟩
  | swagger2 => exact ⟨Repair.members members, rfl⟩

theorem Dialect.describes_obj {dialect : Dialect} {document : Value} (describes : dialect.describes document = true) :
    ∃ members, document = .obj members := by
  cases document with
  | obj members => exact ⟨members, rfl⟩
  | _ => cases describes

theorem Dialect.convert_obj {source target : Dialect} {setting : Conversion.Setting} {document : Value} {converted : Converted}
    (made : source.convert target setting document = .ok converted) : ∃ members, converted.document = .obj members := by
  unfold Dialect.convert at made
  split at made
  next =>
    obtain ⟨_, laid, relocated, queue, _, _, rfl⟩ := Conversion.Setting.convert_eq_ok made
    obtain ⟨changed, same, _⟩ := mild_mildly.obj (Conversion.Setting.finish_mildly setting laid relocated queue)
    exact ⟨changed, same⟩
  next => cases made

namespace Loaded
variable {registry : Registry} {files : Files} {source : Source} {dialect : Dialect} {loaded : Loaded} {limit : Nat}
  {target : Dialect} {converted : Converted}

theorem load_obj (read : load registry files source dialect = .ok loaded) : ∃ members, loaded.document = .obj members := by
  obtain ⟨_, document, _, describes, _, rfl⟩ := load_eq_ok.mp read
  obtain ⟨members, rfl⟩ := Dialect.describes_obj describes
  exact dialect.repair_obj members

theorem convert_obj {members : Members Value} (whole : loaded.document = .obj members)
    (made : loaded.convert registry files limit target = .ok converted) : ∃ members, converted.document = .obj members := by
  unfold convert at made
  split at made
  next =>
    cases made
    exact ⟨members, whole⟩
  next =>
    obtain ⟨_, _, made⟩ := bind_eq_ok.mp made
    obtain ⟨outcome, ran, made⟩ := bind_eq_ok.mp made
    obtain ⟨_, _, made⟩ := bind_eq_ok.mp made
    obtain ⟨inner, same⟩ := Dialect.convert_obj ran
    rw [pure_eq_ok.mp made, same]
    exact target.repair_obj inner

end Loaded

/-- Nothing but an object comes out of a conversion. -/
theorem Settings.convert_obj {settings : Settings} {registry : Registry} {files : Files} {source : Source} {converted : Converted}
    (made : settings.convert registry files source = .ok converted) : ∃ members, converted.document = .obj members := by
  obtain ⟨loaded, read, made⟩ := bind_eq_ok.mp made
  obtain ⟨members, whole⟩ := Loaded.load_obj read
  have filled : ∃ members, (if settings.fillMissing then loaded.fill Value.placeholders else loaded).document = .obj members := by
    split
    next => exact ⟨_, by rw [Loaded.fill, whole]; rfl⟩
    next => exact ⟨members, whole⟩
  obtain ⟨_, whole⟩ := filled
  exact Loaded.convert_obj whole made

/-- JSON text of an object is read alike behind a line feed, by either reader. -/
theorem parse?_pretty_newline (members : Members Value) :
    parse? (Json.pretty 0 (.obj members) ++ "\n") = parse? (Json.pretty 0 (.obj members)) := by
  rw [parse?, parse?, Json.read_newline, Yaml.read_pretty_newline]

namespace CommandLine

/-- What is written for a command line, to wherever it goes. -/
def Reply.written? : Reply → Option String
  | .printed text => some text
  | .saved _ text => some text
  | _ => none

variable {files : Files} {environment : String → Option String} {words : List String} {arguments : Arguments} {text : String}

/-- A run that succeeds, and was not stopped by its command line, writes the text of its conversion. -/
theorem reply_written (succeeded : (reply files environment words).exitCode = 0)
    (converts : ∀ halt, reply files environment words ≠ .halted halt) :
    ∃ arguments text, Arguments.read environment words = .ok arguments ∧ arguments.text files = .ok text ∧
      (reply files environment words).written? = some text := by
  unfold reply at succeeded converts ⊢
  cases read : Arguments.read environment words with
  | error halt => exact absurd (by rw [read]) (converts halt)
  | ok arguments =>
    simp only [read] at succeeded
    cases made : arguments.text files with
    | error error =>
      simp only [made] at succeeded
      cases succeeded
    | ok text =>
      refine ⟨arguments, text, rfl, made, ?_⟩
      cases place : arguments.options.output <;> simp [made, place, Reply.written?]

theorem Arguments.text_eq_ok : arguments.text files = .ok text ↔ ∃ settings converted, arguments.settings files = .ok settings ∧
    settings.convert .complete files (arguments.source files) = .ok converted ∧
    text = Text.trimEnd (settings.render converted) ++ "\n" := by
  simp only [Arguments.text, bind_eq_ok, pure_eq_ok, exists_and_left]

/-- The value whose text is written last. -/
def lastWritten (settings : Settings) (converted : Converted) : Value :=
  (settings.layout.order.sortKeys converted.document).last

/-- The written text is read like the text of the conversion, in JSON always, and in YAML when what is
written last is settled. Then it is that text, and otherwise it is another one. -/
theorem written_reads (succeeded : (reply files environment words).exitCode = 0)
    (converts : ∀ halt, reply files environment words ≠ .halted halt) :
    ∃ text arguments settings converted, (reply files environment words).written? = some text ∧
      Arguments.read environment words = .ok arguments ∧ arguments.settings files = .ok settings ∧
      settings.convert .complete files (arguments.source files) = .ok converted ∧
      (settings.layout.markup = .json ∨ Yaml.Settled (lastWritten settings converted) →
        parse? text = parse? (settings.render converted)) ∧
      (settings.layout.markup = .yaml →
        (text = settings.render converted ↔ Yaml.Settled (lastWritten settings converted))) := by
  obtain ⟨arguments, text, read, made, written⟩ := reply_written succeeded converts
  obtain ⟨settings, converted, chosen, ran, rfl⟩ := Arguments.text_eq_ok.mp made
  have block (yaml : settings.layout.markup = .yaml) : Text.trimEnd (settings.render converted) ++ "\n" = settings.render converted ↔
      Yaml.Settled (lastWritten settings converted) := by
    rw [Settings.render, render, yaml]
    exact Yaml.print_kept_iff _
  refine ⟨_, arguments, settings, converted, written, read, chosen, ran, fun keeps => ?_, block⟩
  cases markup : settings.layout.markup with
  | yaml => rw [(block markup).mpr (keeps.resolve_left (by simp [markup]))]
  | json =>
    obtain ⟨members, same⟩ := Settings.convert_obj ran
    have shown : settings.render converted = Json.pretty 0 (.obj (settings.layout.order.arrange
        (settings.layout.order.sortMembers members))) := by
      rw [Settings.render, render, markup, same]
      rfl
    rw [shown, Text.trimEnd_eq_iff.mpr (Json.closed_pretty 0 _), parse?_pretty_newline]

theorem reply_printed (read : Arguments.read environment words = .ok arguments) (made : arguments.text files = .ok text)
    (nowhere : arguments.options.output = none) : reply files environment words = .printed text := by
  simp only [reply, read, made, nowhere]

/-- Its note ends with two line feeds. -/
def notebook : String := "\x7b\"openapi\":\"3.0.0\",\"paths\":\x7b\x7d,\"x-note\":\"x\\n\\n\"\x7d"

def convertedNotebook (note : String) : Value :=
  .obj [("swagger", .str "2.0"), ("paths", .obj []), ("x-note", .str note)]

theorem notebook_converts (layout : Layout) :
    Settings.convert { layout } Registry.complete Files.none (.text notebook) = .ok ⟨convertedNotebook "x\n\n", []⟩ := by
  have made : Settings.convert {} Registry.complete Files.none (.text notebook) = .ok ⟨convertedNotebook "x\n\n", []⟩ := by
    decide +kernel
  exact made

theorem notebook_reads :
    (reply Files.none (fun _ => none) ["--text", notebook]).exitCode = 0 ∧
      ∃ text, (reply Files.none (fun _ => none) ["--text", notebook]).written? = some text ∧
        parse? text = parse? (Settings.render {} ⟨convertedNotebook "x\n\n", []⟩) := by
  have read : Arguments.read (fun _ => none) ["--text", notebook] = .ok ⟨notebook, { text := true }⟩ := rfl
  have made : Arguments.text Files.none ⟨notebook, { text := true }⟩ = .ok _ :=
    Arguments.text_eq_ok.mpr ⟨{}, _, rfl, notebook_converts ⟨.json, .conventional⟩, rfl⟩
  have printed := reply_printed read made rfl
  have succeeded : (reply Files.none (fun _ => none) ["--text", notebook]).exitCode = 0 := by
    rw [printed]
    rfl
  obtain ⟨text, arguments, settings, converted, written, same, chosen, ran, kept, _⟩ :=
    written_reads succeeded (by rw [printed]; exact fun _ halted => by cases halted)
  cases read.symm.trans same
  cases chosen
  cases (notebook_converts ⟨.json, .conventional⟩).symm.trans ran
  exact ⟨succeeded, text, written, kept (.inl rfl)⟩

/-- In block style one of the line feeds is given up, and the note that is read ends with one. -/
theorem notebook_cut :
    let written := "swagger: '2.0'\npaths: \x7b\x7d\nx-note: |+\n  x\n"
    ∃ arguments settings converted,
      (reply Files.none (fun _ => none) ["--text", notebook, "--syntax", "yaml"]).written? = some written ∧
        Arguments.read (fun _ => none) ["--text", notebook, "--syntax", "yaml"] = .ok arguments ∧
        arguments.settings Files.none = .ok settings ∧
        settings.convert .complete Files.none (arguments.source Files.none) = .ok converted ∧
        parse? written = some (convertedNotebook "x\n") ∧
        parse? (settings.render converted) = some (convertedNotebook "x\n\n") ∧
        parse? written ≠ parse? (settings.render converted) := by
  have sorted : KeyOrder.sortKeys .conventional (convertedNotebook "x\n\n") = convertedNotebook "x\n\n" := by
    simp [convertedNotebook, KeyOrder.sortKeys, KeyOrder.sortMembers, KeyOrder.arrange, List.mergeSort, KeyOrder.atMost,
      KeyOrder.rank, KeyOrder.wellKnown, List.MergeSort.Internal.splitInTwo]
  have shown : Settings.render { layout := ⟨.yaml, .conventional⟩ } ⟨convertedNotebook "x\n\n", []⟩ =
      Yaml.print (convertedNotebook "x\n\n") := congrArg Yaml.print sorted
  have read : Arguments.read (fun _ => none) ["--text", notebook, "--syntax", "yaml"] =
      .ok ⟨notebook, { text := true, markup := some .yaml }⟩ := rfl
  have ran := notebook_converts ⟨.yaml, .conventional⟩
  have made : Arguments.text Files.none ⟨notebook, { text := true, markup := some .yaml }⟩ = .ok _ :=
    Arguments.text_eq_ok.mpr ⟨{ layout := ⟨.yaml, .conventional⟩ }, _, rfl, ran, rfl⟩
  have cut : parse? "swagger: '2.0'\npaths: \x7b\x7d\nx-note: |+\n  x\n" = some (convertedNotebook "x\n") := by decide +kernel
  have whole : parse? (Settings.render { layout := ⟨.yaml, .conventional⟩ } ⟨convertedNotebook "x\n\n", []⟩) =
      some (convertedNotebook "x\n\n") := by
    rw [shown]
    decide +kernel
  refine ⟨_, { layout := ⟨.yaml, .conventional⟩ }, _, ?_, read, rfl, ran, cut, whole, ?_⟩
  · rw [reply_printed read made rfl, shown]
    decide +kernel
  · rw [cut, whole]
    decide

end CommandLine
end ApiDialect
