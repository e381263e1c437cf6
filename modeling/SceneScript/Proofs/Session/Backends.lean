import SceneScript.Proofs.Bytecode.RoundTrip
import SceneScript.Proofs.Session.Steps

/-!
# Scenes through bytecode

Running what a program decodes to comes to the same as running the operations it was compiled from:
the same coordinate systems, the same picture, the same deliveries and the same failures, and only
the definitions are not counted, since a program has none.

The two runs go side by side (`Abreast`, `Abreast.run`). A definition moves the direct run alone,
and any other operation moves both (`Abreast.definition`, `Abreast.operation`). What they do then is
the same because a solid without a profile is lit with the profile of the configuration, which is
the one that compiling fills in (`execute_withStandardProfile`), and no operation changes the
configuration (`config_execute`).
-/

namespace SceneScript

variable {σ : Type}

/-- A sink that keeps a list of what it is asked to deliver, in order, and where to. -/
def Sink.recording (sink : Sink σ) : Sink (σ × List (Destination × Framebuffer)) :=
  ⟨fun fb destination state =>
    let (result, delivered) := sink.deliver fb destination state.1
    (result, delivered, state.2 ++ [(destination, fb)])⟩

namespace Session

open Operation (carried)

/-! ## Single operations -/

/-- Filling in the profile that the configuration would choose changes nothing. -/
theorem execute_withStandardProfile (sink : Sink σ) (op : Operation) {s : Session σ}
    (hs : s.config.lighting.reflectance = .standard) :
    execute sink op.withStandardProfile s = execute sink op s := by
  have hk (k : Option Reflectance) (ts : List (Triangle (Vec3 Float))) :
      s.drawSolid (some (k.getD .standard)) ts = s.drawSolid k ts := by
    simp only [drawSolid, flushPolygons, hs, Option.getD_some]
  cases op with
  | box corner size k => exact congrArg (Prod.mk _) (hk k _)
  | sphere center radius k => exact congrArg (Prod.mk _) (hk k _)
  | torus center minor major k => exact congrArg (Prod.mk _) (hk k _)
  | _ => rfl

/-! ## Two runs side by side -/

/-- Two runs have come to the same session with the same failures, and the first one has carried
out `n` operations more. -/
structure Abreast (n : Nat) (direct compiled : Tally × Session σ) : Prop where
  session : compiled.2 = direct.2
  failed : compiled.1.failed = direct.1.failed
  executed : direct.1.executed = compiled.1.executed + n

variable {sink : Sink σ} {n : Nat} {direct compiled : Tally × Session σ}

/-- A definition is carried out by doing nothing. -/
theorem Abreast.definition {op : Operation} (h : Abreast n direct compiled)
    (hd : op.isDefinition = true) : Abreast (n + 1) (advance sink direct op) compiled := by
  cases op with
  | constants => exact ⟨h.session, h.failed, congrArg (· + 1) h.executed⟩
  | _ => cases hd

/-- An operation and the same one with its profile filled in do the same. -/
theorem Abreast.operation (h : Abreast n direct compiled) (op : Operation)
    (hs : direct.2.config.lighting.reflectance = .standard) :
    Abreast n (advance sink direct op) (advance sink compiled op.withStandardProfile) := by
  obtain ⟨session, failed, executed⟩ := h
  unfold advance
  rw [session, execute_withStandardProfile sink op hs]
  obtain ⟨result, s⟩ := execute sink op direct.2
  cases result with
  | ok => exact ⟨rfl, failed, by simp only [Tally.count]; omega⟩
  | error => exact ⟨rfl, congrArg (· + 1) failed, executed⟩

/-- Runs that are abreast stay abreast, and the lead grows by the definitions. -/
theorem Abreast.run {ops : List Operation} (h : Abreast n direct compiled)
    (ho : ∀ op ∈ ops, op.isOmitted = false)
    (hs : direct.2.config.lighting.reflectance = .standard) :
    Abreast (n + ops.countP Operation.isDefinition) (ops.foldl (advance sink) direct)
      ((carried ops).foldl (advance sink) compiled) := by
  induction ops generalizing n direct compiled with
  | nil => exact h
  | cons op ops ih =>
    obtain ⟨hop, hops⟩ := List.forall_mem_cons.1 ho
    have hs' : (advance sink direct op).2.config.lighting.reflectance = .standard := by
      rw [advance, config_execute, hs]
    cases hd : op.isDefinition with
    | true =>
      rw [Operation.carried_cons_omitted (.inr hd), List.countP_cons_of_pos hd, List.foldl_cons,
        Nat.add_comm _ 1, ← Nat.add_assoc]
      exact ih (h.definition hd) hops hs'
    | false =>
      rw [Operation.carried_cons hop hd, List.countP_cons_of_neg (by simp [hd]), List.foldl_cons,
        List.foldl_cons]
      exact ih (h.operation op hs) hops hs'

/-! ## Whole scenes -/

/-- Under a configuration whose own profile is the standard one, operations without curves and
clearing do the same through bytecode as they do directly. From a new session both ways end with the
same coordinate systems, picture and sink, after the same deliveries in the same order, and with as
many failures; only the definitions are missing from the operations carried out. -/
theorem executeAll_decode_compile (config : Config)
    (hc : config.lighting.reflectance = .standard) (sink : Sink σ) (start : σ)
    (ops : List Operation) (ho : ∀ op ∈ ops, op.isOmitted = false)
    (hw : ∀ path, .save path ∈ ops → 0 ∉ Utf8.encode path.toList) :
    ∃ p decoded, Program.compile ops = .ok p ∧ Program.decode p.bytes = .ok decoded ∧
      let direct := executeAll sink ops (.new config start)
      let compiled := executeAll sink decoded (.new config start)
      compiled.2 = direct.2 ∧ compiled.1.failed = direct.1.failed ∧
        direct.1.executed = compiled.1.executed + ops.countP Operation.isDefinition ∧
        (executeAll sink.recording decoded (.new config (start, []))).2.delivered.2 =
          (executeAll sink.recording ops (.new config (start, []))).2.delivered.2 := by
  obtain ⟨p, hp, hdec, -⟩ := Program.exists_compile ops
    fun op hop path h => hw path (h ▸ hop)
  have habreast {τ : Type} (sink : Sink τ) (start : τ) :
      Abreast (0 + ops.countP Operation.isDefinition) (executeAll sink ops (.new config start))
        (executeAll sink (carried ops) (.new config start)) :=
    Abreast.run ⟨rfl, rfl, rfl⟩ ho hc
  obtain ⟨session, failed, executed⟩ := habreast sink start
  rw [Nat.zero_add] at executed
  exact ⟨p, carried ops, hp, hdec, session, failed, executed,
    congrArg (·.delivered.2) (habreast sink.recording (start, [])).session⟩

/-- A scene with a definition, a solid without a profile, a system that cannot be closed and a
picture that nobody takes. -/
theorem executeAll_decode_compile_scene :
    Config.standard.lighting.reflectance = .standard ∧
      (∀ op ∈ [Operation.constants "k" .standard, .sphere ⟨1.0, 2.0, 3.0⟩ 4.0 none, .pop,
        .save "a.png"], op.isOmitted = false) ∧
      (∀ path, Operation.save path ∈ [.constants "k" .standard, .sphere ⟨1.0, 2.0, 3.0⟩ 4.0 none,
        .pop, .save "a.png"] → 0 ∉ Utf8.encode path.toList) ∧
      ∃ p decoded, Program.compile [.constants "k" .standard, .sphere ⟨1.0, 2.0, 3.0⟩ 4.0 none,
          .pop, .save "a.png"] = .ok p ∧ Program.decode p.bytes = .ok decoded ∧
        let sink : Sink Nat := ⟨fun _ _ n => (.error .encode, n + 1)⟩
        let direct := executeAll sink [.constants "k" .standard,
          .sphere ⟨1.0, 2.0, 3.0⟩ 4.0 none, .pop, .save "a.png"] (.new .standard 0)
        let compiled := executeAll sink decoded (.new .standard 0)
        compiled.2 = direct.2 ∧ compiled.1.failed = direct.1.failed ∧
          direct.1.executed = compiled.1.executed + 1 := by
  have ho : ∀ op ∈ [Operation.constants "k" .standard, .sphere ⟨1.0, 2.0, 3.0⟩ 4.0 none, .pop,
      .save "a.png"], op.isOmitted = false := by simp [Operation.isOmitted]
  have hw : ∀ path, Operation.save path ∈ [.constants "k" .standard,
      .sphere ⟨1.0, 2.0, 3.0⟩ 4.0 none, .pop, .save "a.png"] →
      0 ∉ Utf8.encode path.toList := by
    intro path h
    obtain rfl : path = "a.png" := by simpa using h
    decide
  obtain ⟨p, decoded, hp, hdec, session, failed, executed, -⟩ :=
    executeAll_decode_compile .standard rfl ⟨fun _ _ n => (.error .encode, n + 1)⟩ 0 _ ho hw
  exact ⟨rfl, ho, hw, p, decoded, hp, hdec, session, failed, executed⟩

end Session

end SceneScript
