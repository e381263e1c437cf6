import SceneScript.Proofs.Bytecode.Writing
import SceneScript.Proofs.CommandLine.Compiling

/-!
# Refused compilations

A path that cannot be written stops a compilation before a byte of the program is there
(`Program.compile_of_firstUnwritable`), but not before the output file is opened. So the
program that was in that file is lost: the file is empty, and plays as a program without operations
(`refused_compilations_empty_the_output`). All other files are kept, and where the file cannot be
opened all of them are.
-/

namespace SceneScript

namespace CommandLine

open Operation (FirstUnwritable)
open Program (compileAt decodeAt)

variable {ops : List Operation} {path : List Char} {files opened after : FileStore} {bad : String}

/-- The file at the path is empty, and everything else is as it was. -/
structure Empties (path : List Char) (files after : FileStore) : Prop where
  /-- The file is there, whether it was there before or not. -/
  read : after.read path = .ok (.bytes [])
  others : ∃ place, files.target path = .ok (.name place false) ∧
    ∀ other ≠ place, after.find? other = files.find? other
  isDirectory : ∀ route, after.isDirectory route = files.isDirectory route

/-- Opening a file for a program empties it. -/
theorem empties_of_write (h : files.write path (.bytes []) = .ok opened) :
    Empties path files opened where
  read := FileStore.read_write h
  others := by
    obtain ⟨place, ht, -, rfl⟩ := FileStore.write_eq_ok_iff.1 h
    refine ⟨place, ht, fun other hne => ?_⟩
    rw [FileStore.find?_put, if_neg hne]
  isDirectory := FileStore.isDirectory_write h

/-- An empty file is a program without operations. -/
theorem Empties.decodeAt_eq (h : Empties path files after) : decodeAt path after = .ok [] := by
  rw [decodeAt, h.read]
  rfl

/-- A compilation whose output cannot be opened does nothing. -/
theorem compileAt_of_not_opened {reason : FileError}
    (h : files.write path (.bytes []) = .error reason) (ops : List Operation) :
    compileAt ops path files = (.error (.io reason.message), files) := by
  rw [compileAt, h]

/-- A compilation that is refused ends with its output opened. -/
theorem compileAt_of_firstUnwritable (hopen : files.write path (.bytes []) = .ok opened)
    (h : FirstUnwritable bad ops) :
    compileAt ops path files = (.error (.unwritablePath bad), opened) := by
  rw [compileAt, hopen]
  dsimp only
  rw [Program.compile_of_firstUnwritable h]

/-- The ways in which a compilation to a file ends. -/
theorem compileAt_cases (ops : List Operation) (path : List Char) (files : FileStore) :
    (∃ reason, compileAt ops path files = (.error (.io reason), files)) ∨
    (∃ bad opened, FirstUnwritable bad ops ∧ files.write path (.bytes []) = .ok opened ∧
      compileAt ops path files = (.error (.unwritablePath bad), opened)) ∨
    ∃ p written, compileAt ops path files = (.ok p, written) := by
  cases hopen : files.write path (.bytes []) with
  | error reason => exact .inl ⟨_, compileAt_of_not_opened hopen ops⟩
  | ok opened =>
    rcases Operation.forall_isWritable_or_firstUnwritable ops with hw | ⟨bad, h⟩
    · obtain ⟨p, hp, -⟩ := Program.exists_compile ops hw
      obtain ⟨written, hc, -⟩ := compileAt_of_compile hopen hp
      exact .inr (.inr ⟨p, written, hc⟩)
    · exact .inr (.inl ⟨bad, opened, h, rfl, compileAt_of_firstUnwritable hopen h⟩)

/-- A compilation is refused for the first path that cannot be written, once its output is open. -/
theorem compileAt_eq_unwritablePath_iff :
    compileAt ops path files = (.error (.unwritablePath bad), after) ↔
      FirstUnwritable bad ops ∧ files.write path (.bytes []) = .ok after := by
  refine ⟨fun h => ?_, fun ⟨hbad, hopen⟩ => compileAt_of_firstUnwritable hopen hbad⟩
  rcases compileAt_cases ops path files with ⟨_, hc⟩ | ⟨_, _, hbad, hopen, hc⟩ | ⟨_, _, hc⟩
  · cases hc.symm.trans h
  · cases hc.symm.trans h
    exact ⟨hbad, hopen⟩
  · cases hc.symm.trans h

/-- A compilation is refused when its output can be opened and a path cannot be written, and tells
the first such path. The output is empty then whatever it was before, and is read as a program
without operations; nothing else changes, so the files are as they were only if the output was
there and empty. A compilation that fails otherwise leaves the files as they were. -/
theorem refused_compilations_empty_the_output (ops : List Operation) (path : List Char)
    (files : FileStore) :
    (∀ bad after, compileAt ops path files = (.error (.unwritablePath bad), after) ↔
      FirstUnwritable bad ops ∧ files.write path (.bytes []) = .ok after) ∧
    (∀ bad after, compileAt ops path files = (.error (.unwritablePath bad), after) →
      Empties path files after ∧ decodeAt path after = .ok [] ∧
        (files.Alike after ↔ files.read path = .ok (.bytes []))) ∧
    ∀ e after, compileAt ops path files = (.error e, after) →
      (∃ bad, e = .unwritablePath bad) ∨ after = files := by
  refine ⟨fun bad after => compileAt_eq_unwritablePath_iff, fun bad after h => ?_,
    fun e after h => ?_⟩
  · -- the only write there was is the one that opened the output
    obtain ⟨-, hopen⟩ := compileAt_eq_unwritablePath_iff.1 h
    have hempty := empties_of_write hopen
    exact ⟨hempty, hempty.decodeAt_eq, FileStore.alike_write_iff hopen⟩
  · rcases compileAt_cases ops path files with ⟨_, hc⟩ | ⟨_, _, -, -, hc⟩ | ⟨_, _, hc⟩
    · cases hc.symm.trans h
      exact .inr rfl
    · cases hc.symm.trans h
      exact .inl ⟨_, rfl⟩
    · cases hc.symm.trans h

/-- The first of two paths that cannot be written is told. The program that was in the output is
gone, and the file beside it is kept. -/
theorem refused_compilations_empty_the_output_beside :
    let ops : List Operation := [.push, .save "a\x00b", .clear, .save "\x00"]
    let kept : Route × Content := (["d".toList, "kept".toList], .bytes [7])
    let out : Route := ["d".toList, "out".toList]
    let files : FileStore := ⟨[kept, (out, .bytes [1, 2])], []⟩
    let after : FileStore := ⟨[kept, (out, .bytes [])], []⟩
    compileAt ops "d/out".toList files = (.error (.unwritablePath "a\x00b"), after) ∧
      decodeAt "d/out".toList files = .ok [.push, .pop] ∧
      Empties "d/out".toList files after ∧ decodeAt "d/out".toList after = .ok [] ∧
      ¬ files.Alike after := by
  intro ops kept out files after
  have hcompile : compileAt ops "d/out".toList files =
      (.error (.unwritablePath "a\x00b"), after) := by decide +kernel
  have hearlier : decodeAt "d/out".toList files = .ok [.push, .pop] := by decide +kernel
  have hread : files.read "d/out".toList ≠ .ok (.bytes []) := by decide +kernel
  obtain ⟨hempty, hdecode, halike⟩ :=
    (refused_compilations_empty_the_output ops "d/out".toList files).2.1 _ _ hcompile
  exact ⟨hcompile, hearlier, hempty, hdecode, fun h => hread (halike.1 h)⟩

/-- A refused script leaves an empty output where there was none, and where there was a program. -/
theorem compile_empties_output_of_refused_script :
    let bytes := Utf8.encode "save\na\x00b\n".toList
    let script : Route × Content := (["s.mdl".toList], .bytes bytes)
    let out : Route := ["out".toList]
    let absent : FileStore := ⟨[script], []⟩
    let earlier : FileStore := ⟨[script, (out, .bytes [1, 2])], []⟩
    let after : FileStore := ⟨[script, (out, .bytes [])], []⟩
    let outcome (files : FileStore) :=
      run (fun _ => none) ["compile", "s.mdl", "-o", "out"] [] files
    ScriptContents.ofStream ⟨bytes, none⟩ = ⟨[.save "a\x00b"], [], .empty⟩ ∧
      compileAt [.save "a\x00b"] "out".toList absent =
        (.error (.unwritablePath "a\x00b"), after) ∧
      compileAt [.save "a\x00b"] "out".toList earlier =
        (.error (.unwritablePath "a\x00b"), after) ∧
      outcome absent = ⟨.failed (.unwritable "out"), [], after⟩ ∧
      outcome earlier = ⟨.failed (.unwritable "out"), [], after⟩ ∧
      absent.find? out = none ∧ after.find? out = some (.bytes []) ∧
      decodeAt "out".toList earlier = .ok [.push, .pop] ∧ decodeAt "out".toList after = .ok [] := by
  decide +kernel

end CommandLine

end SceneScript
