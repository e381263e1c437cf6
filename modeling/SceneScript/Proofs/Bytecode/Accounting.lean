import SceneScript.Proofs.Bytecode.RoundTrip

/-!
# What a program accounts for

Compiling goes operation by operation, and each of them has one of four effects (`effect`): its
instruction is put in front of what follows, or it is left out and reported, or it is left out as a
definition, or it stops the compilation. None of this depends on what comes before, but for the
place that a report names. So two lists, one behind the other, have a program if each has one, and
it is the two programs one behind the other, with the places of the second counted on
(`compile_append`).

A program assembles its operations one by one (`Assembles`). So it reports just those that are left
out, with their places in order (`Assembles.omissions_eq`, `pairwise_index_omissions`), and every
operation is an instruction, a report or a definition (`Assembles.length_eq`).
-/

namespace SceneScript

/-- The report with its place counted from `n` on. -/
def Omission.raise (n : Nat) (o : Omission) : Omission := ⟨o.index + n, o.keyword⟩

/-- The reports of the operations that are left out, if the first operation stands at place `n`. -/
def Operation.omissions (n : Nat) (ops : List Operation) : List Omission :=
  (ops.zipIdx n).filterMap fun (op, i) => if op.isOmitted then some ⟨i, op.keyword⟩ else none

namespace Program

/-- A program with another one behind it. -/
def append (p q : Program) : Program :=
  ⟨p.bytes ++ q.bytes, p.instructions + q.instructions, p.bytesWritten + q.bytesWritten,
    p.omissions ++ q.omissions⟩

/-- The program with the places of its reports counted from `n` on. -/
def raise (n : Nat) (p : Program) : Program := { p with omissions := p.omissions.map (.raise n) }

/-! ## Single operations -/

/-- The effects that an operation can have on a compilation. -/
inductive Effect (op : Operation) : Prop
  | instruction (i : Instruction) : op.isOmitted = false → op.isDefinition = false →
      (∀ n ops, compileFrom n (op :: ops) = (compileFrom (n + 1) ops).map (prepend i)) → Effect op
  | omission : op.isOmitted = true → op.isDefinition = false →
      (∀ n ops, compileFrom n (op :: ops) =
        (compileFrom (n + 1) ops).map (omitting ⟨n, op.keyword⟩)) → Effect op
  | definition : op.isOmitted = false → op.isDefinition = true →
      (∀ n ops, compileFrom n (op :: ops) = compileFrom (n + 1) ops) → Effect op
  | failure (e : BytecodeError) : (∀ n ops, compileFrom n (op :: ops) = .error e) → Effect op

/-- Every operation has one of the effects, whatever stands before it and behind it. -/
theorem effect (op : Operation) : Effect op := by
  cases op with
  | constants => exact .definition rfl rfl fun _ _ => rfl
  | circle | hermite | bezier | clear => exact .omission rfl rfl fun _ _ => rfl
  | save path =>
    cases h : unwritablePath? (.save path) with
    | some path' => exact .failure (.unwritablePath path') fun n ops => by simp [compileFrom, h]
    | none =>
      refine .instruction (.save (Utf8.encode path.toList)) rfl rfl fun n ops => ?_
      simp [compileFrom, h, Instruction.ofOperation?]
  | _ => exact .instruction _ rfl rfl fun _ _ => rfl

/-- A program is assembled from operations, the first of which stands at a place. -/
inductive Assembles : Nat → List Operation → Program → Prop
  | nil : Assembles n [] empty
  | instruction : op.isOmitted = false → op.isDefinition = false → Assembles (n + 1) ops p →
      Assembles n (op :: ops) (prepend i p)
  | omission : op.isOmitted = true → op.isDefinition = false → Assembles (n + 1) ops p →
      Assembles n (op :: ops) (omitting ⟨n, op.keyword⟩ p)
  | definition : op.isOmitted = false → op.isDefinition = true → Assembles (n + 1) ops p →
      Assembles n (op :: ops) p

variable {p q : Program} {op : Operation} {ops : List Operation} {n : Nat}

/-! ## One list behind another -/

/-- The program of two lists is that of the first one with that of the second one behind it. -/
theorem compileFrom_append (n : Nat) (xs ys : List Operation) :
    compileFrom n (xs ++ ys) =
      (compileFrom n xs).bind fun p => (compileFrom (n + xs.length) ys).map p.append := by
  induction xs generalizing n with
  | nil =>
    change compileFrom n ys = (compileFrom n ys).map empty.append
    cases compileFrom n ys with
    | error => rfl
    | ok q => simp [Except.map, append, empty]
  | cons op xs ih =>
    have hplace : n + (op :: xs).length = n + 1 + xs.length := by
      rw [List.length_cons]
      omega
    rw [List.cons_append, hplace]
    cases effect op with
    | failure e h =>
      rw [h, h]
      rfl
    | definition _ _ h => rw [h, h, ih]
    | omission _ _ h =>
      rw [h, h, ih]
      cases compileFrom (n + 1) xs with
      | error => rfl
      | ok p => cases compileFrom (n + 1 + xs.length) ys <;> rfl
    | instruction i _ _ h =>
      have hcount (p q : Program) : prepend i (p.append q) = (prepend i p).append q := by
        simp [prepend, append, Nat.add_right_comm]
      rw [h, h, ih]
      cases compileFrom (n + 1) xs with
      | error => rfl
      | ok p =>
        cases compileFrom (n + 1 + xs.length) ys with
        | error => rfl
        | ok q => exact congrArg Except.ok (hcount p q)

/-- The places that a program names are counted from the one of its first operation on. -/
theorem compileFrom_add (n k : Nat) (ops : List Operation) :
    compileFrom (n + k) ops = (compileFrom n ops).map (raise k) := by
  induction ops generalizing n with
  | nil => rfl
  | cons op ops ih =>
    have hplace : n + k + 1 = n + 1 + k := Nat.add_right_comm ..
    cases effect op with
    | failure e h =>
      rw [h, h]
      rfl
    | definition _ _ h => rw [h, h, hplace, ih]
    | omission _ _ h | instruction _ _ _ h =>
      rw [h, h, hplace, ih]
      cases compileFrom (n + 1) ops <;> rfl

/-- Two lists have a program if each has one, and then it is the one behind the other, with the
places of the second list counted behind the first. -/
theorem compile_append (xs ys : List Operation) :
    compile (xs ++ ys) =
      (compile xs).bind fun p => (compile ys).map fun q => p.append (q.raise xs.length) := by
  have hcounted (p q : Program) : (p.append (q.raise xs.length)).counted =
      p.counted.append (q.counted.raise xs.length) := by
    simp [counted, append, raise]
  rw [compile, compileFrom_append, compileFrom_add, compile, compile]
  cases compileFrom 0 xs with
  | error => rfl
  | ok p =>
    cases compileFrom 0 ys with
    | error => rfl
    | ok q => exact congrArg Except.ok (hcounted p q)

/-! ## The operations of a program -/

/-- A program that is made of another one is there because that one is. -/
theorem exists_of_map_eq_ok {f : Program → Program} {r : Except BytecodeError Program}
    (h : r.map f = .ok p) : ∃ q, r = .ok q ∧ f q = p := by
  cases r with
  | error e => cases h
  | ok q => exact ⟨q, rfl, Except.ok.inj h⟩

/-- What is compiled is assembled from the operations. -/
theorem assembles_of_compileFrom (hp : compileFrom n ops = .ok p) : Assembles n ops p := by
  induction ops generalizing n p with
  | nil =>
    cases hp
    exact .nil
  | cons op ops ih =>
    cases effect op with
    | failure e h =>
      rw [h] at hp
      cases hp
    | definition ho hd h =>
      rw [h] at hp
      exact .definition ho hd (ih hp)
    | omission ho hd h =>
      rw [h] at hp
      obtain ⟨q, hq, rfl⟩ := exists_of_map_eq_ok hp
      exact .omission ho hd (ih hq)
    | instruction i ho hd h =>
      rw [h] at hp
      obtain ⟨q, hq, rfl⟩ := exists_of_map_eq_ok hp
      exact .instruction ho hd (ih hq)

/-- A program reports the operations that are left out, and no others. -/
theorem Assembles.omissions_eq (h : Assembles n ops p) :
    p.omissions = Operation.omissions n ops := by
  induction h with
  | nil => rfl
  | omission ho _ _ ih => simp [omitting, Operation.omissions, ho, ih]
  | instruction ho _ _ ih => simp [prepend, Operation.omissions, ho, ih]
  | definition ho _ _ ih => simp [Operation.omissions, ho, ih]

/-- Every operation is an instruction of the program, or it is reported, or it is a definition. -/
theorem Assembles.length_eq (h : Assembles n ops p) :
    p.instructions + p.omissions.length + ops.countP Operation.isDefinition = ops.length := by
  induction h with
  | nil => rfl
  | instruction _ hd _ ih | omission _ hd _ ih | definition _ hd _ ih =>
    rw [List.countP_cons, hd, List.length_cons, ← ih]
    simp [prepend, omitting]
    omega

/-- The places of the operations that are left out go up. -/
theorem pairwise_index_omissions (n : Nat) (ops : List Operation) :
    ((Operation.omissions n ops).map Omission.index).Pairwise (· < ·) := by
  have hplaces : (ops.zipIdx n).Pairwise fun a b => a.2 < b.2 := by
    rw [← List.pairwise_map, List.zipIdx_map_snd]
    exact List.pairwise_lt_range' 1
  rw [List.pairwise_map]
  refine hplaces.filterMap _ ?_
  rintro ⟨op, i⟩ ⟨op', i'⟩ hlt o ho o' ho'
  obtain ⟨-, ho⟩ := Option.ite_none_right_eq_some.1 ho
  obtain ⟨-, ho'⟩ := Option.ite_none_right_eq_some.1 ho'
  cases ho
  cases ho'
  exact hlt

/-! ## Compiling to memory -/

/-- Compiling to memory that grows fails only where there is no program. -/
theorem compileTo_growing_fst (ops : List Operation) (held : List UInt8) :
    (compileTo .growing ops held).1 = compile ops := by
  rw [compileTo]
  cases compile ops <;> rfl

/-- A program is written behind what the memory holds. -/
theorem compileTo_growing_of_ok (h : compile ops = .ok p) (held : List UInt8) :
    compileTo .growing ops held = (.ok p, held ++ p.bytes) := by
  rw [compileTo, h]
  rfl

/-- To memory that grows, two lists of operations can be compiled as one just when each can be
compiled. Then what is written is what either writes, one behind the other, the instructions and the
bytes add up, and the reports are those of both, with the places in the second list counted behind
the first. And of any list that can be compiled, those operations are reported that are left out,
each by its place and its keyword, with the places going up; every other operation is an
instruction or a definition. -/
theorem programs_add_up (xs ys : List Operation) (held : List UInt8) :
    let report ops := (compileTo .growing ops held).1
    ((∃ r, report (xs ++ ys) = .ok r) ↔ (∃ p, report xs = .ok p) ∧ ∃ q, report ys = .ok q) ∧
    (∀ p q, report xs = .ok p → report ys = .ok q →
      ∃ r, compileTo .growing (xs ++ ys) held = (.ok r, held ++ (p.bytes ++ q.bytes)) ∧
        r.instructions = p.instructions + q.instructions ∧
        r.bytesWritten = p.bytesWritten + q.bytesWritten ∧
        r.bytes.length = p.bytes.length + q.bytes.length ∧
        r.omissions = p.omissions ++ q.omissions.map (.raise xs.length)) ∧
    ∀ ops p, report ops = .ok p →
      compileTo .growing ops held = (.ok p, held ++ p.bytes) ∧ p.bytesWritten = p.bytes.length ∧
        p.omissions = Operation.omissions 0 ops ∧
        (p.omissions.map Omission.index).Pairwise (· < ·) ∧
        p.instructions + p.omissions.length + ops.countP Operation.isDefinition = ops.length := by
  simp only [compileTo_growing_fst]
  refine ⟨?_, fun p q hp hq => ?_, fun ops p hp => ?_⟩
  · rw [compile_append]
    cases compile xs with
    | error => simp [Except.bind]
    | ok p => cases compile ys <;> simp [Except.bind, Except.map]
  · have hr : compile (xs ++ ys) = .ok (p.append (q.raise xs.length)) := by
      rw [compile_append, hp, hq]
      rfl
    exact ⟨_, compileTo_growing_of_ok hr held, rfl, rfl, List.length_append, rfl⟩
  · obtain ⟨q, hq, rfl⟩ := compile_eq_ok_iff.1 hp
    have h := assembles_of_compileFrom hq
    refine ⟨compileTo_growing_of_ok hp held, rfl, h.omissions_eq, ?_, h.length_eq⟩
    rw [counted, h.omissions_eq]
    exact pairwise_index_omissions 0 ops

/-- A circle and a clearing are reported, a definition is not, and the places go on in the second
list. -/
theorem programs_add_up_scene :
    let xs : List Operation := [.push, .circle ⟨1.0, 2.0, 3.0⟩ 5.0, .save "a.ppm"]
    let ys : List Operation := [.constants "k" .standard, .clear, .pop]
    ∃ p q r, (compileTo .growing xs [7]).1 = .ok p ∧ (compileTo .growing ys [7]).1 = .ok q ∧
      compileTo .growing (xs ++ ys) [7] = (.ok r, [7] ++ (p.bytes ++ q.bytes)) ∧
      r.instructions = 3 ∧ r.bytesWritten = 9 ∧ r.omissions = [⟨1, .circle⟩, ⟨4, .clear⟩] := by
  intro xs ys
  obtain ⟨r, hr, hinstructions, hbytes, -, homissions⟩ :=
    (programs_add_up xs ys [7]).2.1 _ _ rfl rfl
  exact ⟨_, _, r, rfl, rfl, hr, hinstructions, hbytes, homissions⟩

end Program

end SceneScript
