import Mathlib.Control.Monad.Basic
import SceneScript.CommandLine
import SceneScript.Proofs.Output.FileStore
import SceneScript.Proofs.Script.Lines
import SceneScript.Proofs.Text.Encoding

/-!
# Compiling scripts in files

A script is compiled from the text of its whole file, while it is drawn from the lines as they come.
Both come to the same where all lines are text (`Stream.isText_iff_lines`): then the program that
the operations of the script compile to is in the output file. Where a line is no text, a reader
goes on behind it, but nothing is compiled (`compile_by_lines`).
-/

namespace SceneScript

/-- Bytes are text when their lines are. -/
theorem Stream.isText_iff_lines (bytes : List UInt8) :
    Utf8.IsText bytes ↔ ∀ line ∈ lines ⟨bytes, none⟩, Utf8.IsText line := by
  induction bytes using induction_lines with
  | rest rest h =>
    rw [lines_of_not_mem h]
    cases rest with
    | nil => exact ⟨nofun, fun _ => ⟨[], rfl⟩⟩
    | cons b rest => exact List.forall_mem_singleton.symm
  | line line bytes h ih =>
    rw [lines_line h, List.forall_mem_cons, ← ih]
    exact Utf8.isText_ascii (a := '\n') rfl

namespace CommandLine

variable {arguments : List String} {script output : String}
  {bytes : List UInt8} {files opened : FileStore} {p : Program}

/-! ## Script files and output files -/

/-- The text of a file that holds bytes. -/
theorem readText_of_read (h : files.read script.toList = .ok (.bytes bytes)) :
    readText script files = (Utf8.decode bytes).toOption := by
  rw [readText, h]
  rfl

/-- A program that can be compiled is in the output file if that can be opened. -/
theorem compileAt_of_compile {ops : List Operation} {path : List Char}
    (hopen : files.write path (.bytes []) = .ok opened) (hp : Program.compile ops = .ok p) :
    ∃ written, Program.compileAt ops path files = (.ok p, written) ∧
      written.read path = .ok (.bytes p.bytes) := by
  obtain ⟨written, hw⟩ := FileStore.write_write hopen (.bytes p.bytes)
  refine ⟨written, ?_, FileStore.read_write hw⟩
  rw [Program.compileAt, hopen]
  dsimp only
  rw [hp]
  dsimp only
  rw [hw]

/-- Compiling a script that is text puts the program of its operations into the output file. -/
theorem compile_of_isText (hread : files.read script.toList = .ok (.bytes bytes))
    (hopen : files.write output.toList (.bytes []) = .ok opened)
    (hp : Program.compile (ScriptContents.ofStream ⟨bytes, none⟩).operations = .ok p)
    (h : Utf8.IsText bytes) :
    ∃ written, compile script output files =
        ⟨.done, lines (p.omissions.map (·.message.toList)), written⟩ ∧
      written.read output.toList = .ok (.bytes p.bytes) := by
  obtain ⟨text, rfl⟩ := h
  obtain ⟨written, hcompile, hw⟩ := compileAt_of_compile hopen hp
  refine ⟨written, ?_, hw⟩
  rw [compile, readText_of_read hread, Utf8.decode_encode]
  dsimp only [Except.toOption]
  rw [hcompile]

/-- Compiling a script that is no text does nothing. -/
theorem compile_of_not_isText (hread : files.read script.toList = .ok (.bytes bytes))
    (output : String) (h : ¬ Utf8.IsText bytes) :
    compile script output files = ⟨.failed (.unreadable script), [], files⟩ := by
  obtain ⟨fault, hf⟩ := Utf8.exists_decode_eq_error_iff.2 fun text ht => h ⟨text, ht⟩
  rw [compile, readText_of_read hread, hf]
  rfl

/-! ## Compiling -/

/-- What compiling a script comes to, by the lines of the file. -/
theorem compile_by_lines (programs : Programs) (input : List UInt8)
    (hrequest : request? arguments = some (.compile script output))
    (hread : files.read script.toList = .ok (.bytes bytes))
    (hopen : files.write output.toList (.bytes []) = .ok opened)
    (hp : Program.compile (ScriptContents.ofStream ⟨bytes, none⟩).operations = .ok p) :
    let outcome := run programs arguments input files
    ((∀ line ∈ Stream.lines ⟨bytes, none⟩, Utf8.IsText line) →
      outcome.ending = .done ∧ outcome.printed = lines (p.omissions.map (·.message.toList)) ∧
        outcome.files.read output.toList = .ok (.bytes p.bytes)) ∧
    (¬ (∀ line ∈ Stream.lines ⟨bytes, none⟩, Utf8.IsText line) →
      outcome = ⟨.failed (.unreadable script), [], files⟩) := by
  intro outcome
  have hrun : outcome = compile script output files := by
    simp only [outcome, run, hrequest]
  rw [hrun, ← Stream.isText_iff_lines]
  refine ⟨fun h => ?_, compile_of_not_isText hread output⟩
  obtain ⟨written, hcompile, hw⟩ := compile_of_isText hread hopen hp h
  rw [hcompile]
  exact ⟨rfl, rfl, hw⟩

/-- A script of text, with a line that is no command and an operation that has no instruction. -/
theorem compile_by_lines_of_text :
    let bytes := Utf8.encode "push\nbogus\nclear\npop".toList
    let files : FileStore := ⟨[(["s.mdl".toList], .bytes bytes)], []⟩
    let outcome := run (fun _ => none) ["compile", "s.mdl", "-o", "out"] [] files
    request? ["compile", "s.mdl", "-o", "out"] = some (.compile "s.mdl" "out") ∧
      files.read "s.mdl".toList = .ok (.bytes bytes) ∧
      files.write "out".toList (.bytes []) =
        .ok ⟨[(["s.mdl".toList], .bytes bytes), (["out".toList], .bytes [])], []⟩ ∧
      Program.compile (ScriptContents.ofStream ⟨bytes, none⟩).operations =
        .ok ⟨[1, 2], 2, 2, [⟨1, .clear⟩]⟩ ∧
      outcome.ending = .done ∧ outcome.printed = "op code 1: clear not recognized\n".toList ∧
      outcome.files.read "out".toList = .ok (.bytes [1, 2]) := by
  intro bytes files outcome
  have hrequest : request? ["compile", "s.mdl", "-o", "out"] = some (.compile "s.mdl" "out") := by
    decide +kernel
  have hread : files.read "s.mdl".toList = .ok (.bytes bytes) := by decide +kernel
  have hopen : files.write "out".toList (.bytes []) =
      .ok ⟨[(["s.mdl".toList], .bytes bytes), (["out".toList], .bytes [])], []⟩ := by
    decide +kernel
  have hp : Program.compile (ScriptContents.ofStream ⟨bytes, none⟩).operations =
      .ok ⟨[1, 2], 2, 2, [⟨1, .clear⟩]⟩ := by decide +kernel
  have htext : ∀ line ∈ Stream.lines ⟨bytes, none⟩, Utf8.IsText line :=
    (Stream.isText_iff_lines bytes).1 ⟨_, rfl⟩
  obtain ⟨hending, hprinted, hwritten⟩ :=
    (compile_by_lines (fun _ => none) [] hrequest hread hopen hp).1 htext
  exact ⟨hrequest, hread, hopen, hp, hending, hprinted.trans (by decide +kernel), hwritten⟩

/-- A comment with one byte that is no text: a reader gets the two operations around it, but they
are not compiled. -/
theorem compile_refuses_stray_byte :
    let bytes := Utf8.encode "push\n# caf".toList ++ 0xe9 :: Utf8.encode "\npop\n".toList
    let files : FileStore := ⟨[(["s.mdl".toList], .bytes bytes)], []⟩
    let outcome := run (fun _ => none) ["compile", "s.mdl", "-o", "out"] [] files
    ScriptContents.ofStream ⟨bytes, none⟩ = ⟨[.push, .pop], [.invalidEncoding 2], .empty⟩ ∧
      Program.compile [.push, .pop] = .ok ⟨[1, 2], 2, 2, []⟩ ∧
      files.write "out".toList (.bytes []) =
        .ok ⟨[(["s.mdl".toList], .bytes bytes), (["out".toList], .bytes [])], []⟩ ∧
      outcome = ⟨.failed (.unreadable "s.mdl"), [], files⟩ := by
  decide +kernel

end CommandLine

end SceneScript
