import SceneScript.Proofs.Bytecode.Accounting

/-!
# What is written

A list of operations either has a path that cannot be written, and then the first of these stops the
compilation whatever stands before it and behind it (`compileFrom_of_firstUnwritable`), or it has
none, and then its program is the instructions of the operations one behind the other
(`bytes_of_compileFrom`). So it is settled before anything is written whether there is a program,
and writing is a single step: a writer is handed the whole program or is left as it was
(`compileTo_whole_or_nothing`).
-/

namespace SceneScript

namespace Operation

/-- The instructions of operations in their order. What has none is left out. -/
def encoded (ops : List Operation) : List Instruction := ops.filterMap Instruction.ofOperation?

/-- The path is the first one of the operations that cannot be written. -/
def FirstUnwritable (path : String) (ops : List Operation) : Prop :=
  ∃ before after, ops = before ++ .save path :: after ∧ 0 ∈ Utf8.encode path.toList ∧
    ∀ op ∈ before, op.IsWritable

/-- An operation that cannot be written saves to a path with a zero byte. -/
theorem exists_path_of_not_isWritable {op : Operation} (h : ¬ op.IsWritable) :
    ∃ path, op = .save path ∧ 0 ∈ Utf8.encode path.toList := by
  simpa [IsWritable] using h

/-- Every path can be written, or there is a first one that cannot. -/
theorem forall_isWritable_or_firstUnwritable (ops : List Operation) :
    (∀ op ∈ ops, op.IsWritable) ∨ ∃ path, FirstUnwritable path ops := by
  induction ops with
  | nil => exact .inl nofun
  | cons op ops ih =>
    by_cases hop : op.IsWritable
    · rcases ih with hops | ⟨path, before, after, rfl, h0, hbefore⟩
      · exact .inl (List.forall_mem_cons.2 ⟨hop, hops⟩)
      · exact .inr ⟨path, op :: before, after, rfl, h0, List.forall_mem_cons.2 ⟨hop, hbefore⟩⟩
    · obtain ⟨path, rfl, h0⟩ := exists_path_of_not_isWritable hop
      exact .inr ⟨path, [], ops, rfl, h0, nofun⟩

/-- An operation that has an instruction puts it in front. -/
theorem encoded_cons {op : Operation} {i : Instruction} (h : Instruction.ofOperation? op = some i)
    (ops : List Operation) : encoded (op :: ops) = i :: encoded ops :=
  List.filterMap_cons_some h

/-- An operation that is left out adds no instruction. -/
theorem encoded_cons_omitted {op : Operation} (h : op.isOmitted = true ∨ op.isDefinition = true)
    (ops : List Operation) : encoded (op :: ops) = encoded ops := by
  refine List.filterMap_cons_none ?_
  cases op with
  | circle | hermite | bezier | clear | constants => rfl
  | _ => simp [isOmitted, isDefinition] at h

end Operation

namespace Program

open Operation (FirstUnwritable encoded)

variable {ops : List Operation} {p : Program} {path : String} {n : Nat}

/-! ## Failing -/

/-- The first path that cannot be written is what the compilation fails with. -/
theorem compileFrom_of_firstUnwritable (h : FirstUnwritable path ops) (n : Nat) :
    compileFrom n ops = .error (.unwritablePath path) := by
  obtain ⟨before, after, rfl, h0, hbefore⟩ := h
  obtain ⟨p, hp⟩ := exists_compileFrom n hbefore
  have hnul : '\x00' ∈ path.toList := (Utf8.mem_encode_ascii (a := '\x00') (by decide)).1 h0
  have hstop : compileFrom (n + before.length) (.save path :: after) =
      .error (.unwritablePath path) := by
    simp [compileFrom, unwritablePath?, hnul]
  rw [compileFrom_append, hp, hstop]
  rfl

@[inherit_doc compileFrom_of_firstUnwritable]
theorem compile_of_firstUnwritable (h : FirstUnwritable path ops) :
    compile ops = .error (.unwritablePath path) := by
  rw [compile, compileFrom_of_firstUnwritable h]
  rfl

/-- Only operations whose paths can be written have a program. -/
theorem forall_isWritable_of_compileFrom (hp : compileFrom n ops = .ok p) :
    ∀ op ∈ ops, op.IsWritable := by
  rcases Operation.forall_isWritable_or_firstUnwritable ops with hw | ⟨path, h⟩
  · exact hw
  · rw [compileFrom_of_firstUnwritable h] at hp
    cases hp

/-! ## Succeeding -/

/-- A program is the instructions of its operations, one behind the other. -/
theorem bytes_of_compileFrom (hp : compileFrom n ops = .ok p) :
    p.bytes = (encoded ops).flatMap Instruction.bytes := by
  have hw := forall_isWritable_of_compileFrom hp
  induction ops generalizing n p with
  | nil =>
    cases hp
    rfl
  | cons op ops ih =>
    obtain ⟨hop, hops⟩ := List.forall_mem_cons.1 hw
    obtain ⟨q, hq⟩ := exists_compileFrom (n + 1) hops
    have hbytes := ih hq hops
    rcases Instruction.ofOperation?_cases op with ⟨i, hi, -, -⟩ | ho | hd
    · rw [compileFrom_instruction hop hi, hq] at hp
      cases hp
      rw [Operation.encoded_cons hi, List.flatMap_cons, ← hbytes]
      rfl
    · rw [compileFrom_omitted ho, hq] at hp
      cases hp
      rwa [Operation.encoded_cons_omitted (.inl ho)]
    · rw [compileFrom_definition hd, hq] at hp
      cases hp
      rwa [Operation.encoded_cons_omitted (.inr hd)]

/-- What is in a program that is complete. -/
theorem bytes_of_compile (hp : compile ops = .ok p) :
    p.bytes = (encoded ops).flatMap Instruction.bytes := by
  obtain ⟨q, hq, rfl⟩ := compile_eq_ok_iff.1 hp
  exact (bytes_of_compileFrom hq : q.bytes = _)

/-- A buffer of fixed size that is too small is filled to its end, and then the writing fails. -/
theorem compileTo_fixed (hp : compile ops = .ok p) (hn : n < p.bytes.length) :
    ∃ reason, compileTo .fixed ops ⟨[], n⟩ = (.error (.io reason), ⟨p.bytes.take n, 0⟩) := by
  have hroom : n - p.bytes.length = 0 := by omega
  refine ⟨"failed to write whole buffer", ?_⟩
  rw [compileTo, hp]
  simp [Writer.fixed, hroom, Nat.not_le.2 hn]

/-! ## Writing -/

/-- Compiling writes a whole program or nothing. If a path holds a zero byte, the first such path is
the error whatever writer there is, and nothing is written. Otherwise the writer is handed the
instructions of all operations in one piece, and what it says is the result; and a buffer of fixed
size that is smaller holds as much of the front as it has room for, and the result is an error of
the output. -/
theorem compileTo_whole_or_nothing (ops : List Operation) :
    ((∃ path, .save path ∈ ops ∧ 0 ∈ Utf8.encode path.toList) →
      ∃ path, FirstUnwritable path ops ∧ ∀ {σ : Type} (w : Writer σ) (s : σ),
        compileTo w ops s = (.error (.unwritablePath path), s)) ∧
    ((∀ path, .save path ∈ ops → 0 ∉ Utf8.encode path.toList) →
      ∃ p, p.bytes = (encoded ops).flatMap Instruction.bytes ∧
        (∀ {σ : Type} (w : Writer σ) (s s' : σ),
          (w.write p.bytes s = (.ok (), s') → compileTo w ops s = (.ok p, s')) ∧
          ∀ reason, w.write p.bytes s = (.error reason, s') →
            compileTo w ops s = (.error (.io reason), s')) ∧
        ∀ n < p.bytes.length, ∃ reason held,
          compileTo .fixed ops ⟨[], n⟩ = (.error (.io reason), held) ∧
            held.contents = p.bytes.take n) := by
  refine ⟨fun ⟨path, hmem, h0⟩ => ?_, fun hw => ?_⟩
  · rcases Operation.forall_isWritable_or_firstUnwritable ops with hw | ⟨path, h⟩
    · exact absurd h0 (hw _ hmem path rfl)
    · refine ⟨path, h, fun w s => ?_⟩
      rw [compileTo, compile_of_firstUnwritable h]
  · obtain ⟨p, hp, -⟩ := exists_compile ops fun op hop path h => hw path (h ▸ hop)
    refine ⟨p, bytes_of_compile hp, fun w s s' => ⟨fun h => ?_, fun reason h => ?_⟩,
      fun n hn => ?_⟩
    · rw [compileTo, hp]
      simp only [h]
    · rw [compileTo, hp]
      simp only [h]
    · obtain ⟨reason, hfixed⟩ := compileTo_fixed hp hn
      exact ⟨reason, _, hfixed, List.append_nil _⟩

/-- Two paths hold a zero byte, and the first one is told, though instructions come before it. Of
two instructions the second one is cut off in a buffer of four bytes. -/
theorem compileTo_whole_or_nothing_scene :
    let spoilt : List Operation :=
      [.push, .sphere ⟨1.0, 2.0, 3.0⟩ 4.0 none, .save "a\x00b", .clear, .save "\x00"]
    (∀ {σ : Type} (w : Writer σ) (s : σ),
      compileTo w spoilt s = (.error (.unwritablePath "a\x00b"), s)) ∧
    ∃ reason held, compileTo .fixed [.push, .clear, .save "a.ppm"] ⟨[], 4⟩ =
      (.error (.io reason), held) ∧ held.contents = [1, 10, 97, 46] := by
  intro spoilt
  constructor
  · obtain ⟨path, -, h⟩ := (compileTo_whole_or_nothing spoilt).1
      ⟨"\x00", by simp [spoilt], by decide⟩
    cases (rfl : compileTo .growing spoilt [] = (.error (.unwritablePath "a\x00b"), [])).symm.trans
      (h .growing [])
    exact h
  · have hw : ∀ path, Operation.save path ∈ [.push, .clear, .save "a.ppm"] →
        0 ∉ Utf8.encode path.toList := by
      intro path h
      obtain rfl : path = "a.ppm" := by simpa using h
      decide
    obtain ⟨p, hp, -, hfixed⟩ := (compileTo_whole_or_nothing _).2 hw
    have hbytes : p.bytes = [1, 10, 97, 46, 112, 112, 109, 0] := hp
    rw [hbytes] at hfixed
    exact hfixed 4 (by decide)

end Program

end SceneScript
