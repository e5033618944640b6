import CommandTree.Proofs.Lints

/-!
# When a round succeeds

Generation of source fails for two reasons: two factories would have the same name, or a node
cannot be built (`generate_eq_error_iff`). The lint for types reports an error exactly if a node
cannot be built, so behind the lints only a clash of names is left (`nameClash_of_internal`). Six
conditions on the environment then say when a round succeeds (`Accepted`).
-/

namespace CommandTree

open Diagnostic (hasErrors)
open Factory (chosenName firstFault names)

variable {env : Environment}

/-! ## Generation -/

/-- A generation that fails has a clash of names, or else the first fault of a node. -/
theorem generate_eq_error_iff (henv : env.WellFormed) {settings : GenerationSettings}
    {f : Factory.Fault} :
    env.generate settings = .error f ↔
      names settings.suffix env.scopes = .error f ∨
        (∃ ns, names settings.suffix env.scopes = .ok ns) ∧ firstFault env = some f := by
  unfold Environment.generate
  cases hnames : names settings.suffix env.scopes with
  | error f' =>
    have hfs : Factory.ofEnvironment settings.suffix env = .error f' := by
      unfold Factory.ofEnvironment
      rw [hnames]
      rfl
    simp [hfs, Except.map]
  | ok ns =>
    rw [Factory.ofEnvironment_eq henv (Factory.names_eq_ok.mp hnames).2]
    cases firstFault env <;> simp [Factory.outcome, Except.map]

/-- Something is generated exactly if the names differ and no type is missing or misplaced. -/
theorem generate_eq_ok_iff (henv : env.Sound) {settings : GenerationSettings} :
    (∃ text, env.generate settings = .ok text) ↔
      (env.scopes.map (chosenName settings.suffix env.scopes)).Nodup ∧
        hasErrors (Lint.argumentType env) = false := by
  have hbuildable := Lint.buildable_iff henv
  constructor
  · rintro ⟨text, h⟩
    obtain ⟨fs, hfs, -⟩ := Factory.generate_eq_ok.mp h
    obtain ⟨hnames, hfault, -⟩ := (Factory.ofEnvironment_eq_ok henv.toWellFormed).mp hfs
    exact ⟨hnames, hbuildable.mp hfault⟩
  · rintro ⟨hnames, hlint⟩
    have hfs := (Factory.ofEnvironment_eq_ok henv.toWellFormed).mpr
      ⟨hnames, hbuildable.mpr hlint, rfl⟩
    unfold Environment.generate
    rw [hfs]
    exact ⟨_, rfl⟩

/-- Unless names clash, generation fails exactly if the lint for types reports an error. -/
theorem exists_generate_eq_error (henv : env.Sound) {settings : GenerationSettings}
    (hnames : (env.scopes.map (chosenName settings.suffix env.scopes)).Nodup) :
    (∃ f, env.generate settings = .error f) ↔ hasErrors (Lint.argumentType env) = true := by
  constructor
  · rintro ⟨f, hf⟩
    by_contra hno
    obtain ⟨text, htext⟩ :=
      (generate_eq_ok_iff henv).mpr ⟨hnames, Bool.not_eq_true _ ▸ hno⟩
    rw [hf] at htext
    cases htext
  · intro herror
    cases hgen : env.generate settings with
    | error f => exact ⟨f, rfl⟩
    | ok text =>
      have hno := ((generate_eq_ok_iff henv).mp ⟨text, hgen⟩).2
      rw [hno] at herror
      cases herror

/-- No top-level command is missing in the tree. -/
theorem ne_dangling_of_generate (henv : env.WellFormed) {settings : GenerationSettings}
    {f : Factory.Fault} (h : env.generate settings = .error f) (node : Nat) :
    f.cause ≠ .dangling node := by
  intro hcause
  rcases (generate_eq_error_iff henv).mp h with hnames | ⟨-, hfault⟩
  · obtain ⟨_, scope, name, -, -, rfl⟩ := Factory.names_eq_error.mp hnames
    cases hcause
  · obtain ⟨s, hs, n, hn, hfault⟩ := Factory.exists_of_firstFault henv hfault
    rcases Factory.cause_of_fault? henv hs hn hfault with ⟨path, h⟩ | ⟨role, path, h⟩
    · simp [h] at hcause
    · simp [h] at hcause

/-! ## Diagnostics -/

/-- Every diagnostic of the assembly is an error, so there may be none. -/
theorem allDiagnostics_hasErrors (henv : env.Sound) :
    hasErrors env.allDiagnostics = false ↔
      env.diagnostics = [] ∧ hasErrors (Lint.run Lint.all env) = false := by
  rw [Environment.allDiagnostics, Diagnostic.hasErrors_append, Bool.or_eq_false_iff]
  refine and_congr_left fun _ => ?_
  constructor
  · intro h
    refine List.eq_nil_iff_forall_not_mem.mpr fun d hd => ?_
    exact Diagnostic.hasErrors_eq_false.mp h d hd (henv.errors hd).1
  · intro h
    rw [h]
    rfl

theorem kind_of_mem_allDiagnostics (henv : env.Sound) {d : Diagnostic}
    (h : d ∈ env.allDiagnostics) : d.kind ≠ .internal := by
  rcases List.mem_append.mp h with h | h
  · exact (henv.errors h).2
  · exact Lint.kind_of_mem_run h

/-! ## Rounds -/

variable {settings : Settings} {ds : List Declaration}

/-- A round that succeeds has reported no error, and its output is what was generated. -/
theorem compile_eq_ok {out : Output} (h : compile settings ds = .ok out) :
    hasErrors (Environment.ofDeclarations settings ds).allDiagnostics = false ∧
      (Environment.ofDeclarations settings ds).generate settings.generation = .ok out.source ∧
      out.warnings = (Environment.ofDeclarations settings ds).allDiagnostics := by
  unfold compile at h
  dsimp only at h
  split at h
  · cases h
  next hno =>
    split at h
    next hgen =>
      cases h
      exact ⟨by simpa using hno, hgen, rfl⟩
    · cases h

/-- A round that fails has reported an error, or could not generate. -/
theorem compile_eq_error {diagnostics : List Diagnostic}
    (h : compile settings ds = .error diagnostics) :
    hasErrors (Environment.ofDeclarations settings ds).allDiagnostics = true ∧
        diagnostics = (Environment.ofDeclarations settings ds).allDiagnostics ∨
      hasErrors (Environment.ofDeclarations settings ds).allDiagnostics = false ∧
        ∃ f, (Environment.ofDeclarations settings ds).generate settings.generation = .error f ∧
          diagnostics = (Environment.ofDeclarations settings ds).allDiagnostics ++
            [.ofError .internal f.site f.cause.message] := by
  unfold compile at h
  dsimp only at h
  split at h
  next herrors =>
    cases h
    exact Or.inl ⟨herrors, rfl⟩
  next hno =>
    split at h
    · cases h
    next f hgen =>
      cases h
      exact Or.inr ⟨by simpa using hno, f, hgen, rfl⟩

/-- A diagnostic on a generation that failed is the one for a clash of names. -/
theorem nameClash_of_internal {diagnostics : List Diagnostic} {d : Diagnostic}
    (h : compile settings ds = .error diagnostics) (hd : d ∈ diagnostics)
    (hkind : d.kind = .internal) :
    ∃ f name, names settings.generation.suffix (Environment.ofDeclarations settings ds).scopes =
      .error f ∧ f.cause = .nameClash name ∧ d = .ofError .internal f.site f.cause.message := by
  have henv := (Environment.assembled_ofDeclarations settings ds).sound
  rcases compile_eq_error h with ⟨-, rfl⟩ | ⟨hno, f, hgen, rfl⟩
  · exact absurd hkind (kind_of_mem_allDiagnostics henv hd)
  · have hlint := ((Lint.run_hasErrors henv).mp ((allDiagnostics_hasErrors henv).mp hno).2).2.2
    have hnone := (Factory.firstFault_eq_none henv.toWellFormed).mpr
      ((Lint.buildable_iff henv).mpr hlint)
    rcases (generate_eq_error_iff henv.toWellFormed).mp hgen with hnames | ⟨-, hfault⟩
    · obtain ⟨_, scope, name, -, -, rfl⟩ := Factory.names_eq_error.mp hnames
      refine ⟨_, name, hnames, rfl, ?_⟩
      rcases List.mem_append.mp hd with hd | hd
      · exact absurd hkind (kind_of_mem_allDiagnostics henv hd)
      · exact List.mem_singleton.mp hd
    · rw [hnone] at hfault
      cases hfault

/-- Besides a clash of names, generation fails exactly if the lint for types reports an error, and
never for a command that the tree does not have. In a round only a clash of names can make
generation fail. -/
theorem generate_fails_iff_argumentType (henv : env.Assembled) (generation : GenerationSettings) :
    ((∃ ns, names generation.suffix env.scopes = .ok ns) →
      ((∃ f, env.generate generation = .error f) ↔
        ∃ d ∈ Lint.argumentType env, d.severity = .error)) ∧
    (∀ f, env.generate generation = .error f → ∀ node, f.cause ≠ .dangling node) ∧
    ∀ settings ds diagnostics d, compile settings ds = .error diagnostics → d ∈ diagnostics →
      d.kind = .internal → ∃ f name,
        names settings.generation.suffix (Environment.ofDeclarations settings ds).scopes =
          .error f ∧
        f.cause = .nameClash name ∧ d = .ofError .internal f.site f.cause.message := by
  have hsound := henv.sound
  refine ⟨?_, fun f h node => ne_dangling_of_generate hsound.toWellFormed h node,
    fun _ _ _ _ h hd hkind => nameClash_of_internal h hd hkind⟩
  rintro ⟨ns, hnames⟩
  rw [exists_generate_eq_error hsound (Factory.names_eq_ok.mp hnames).2, Diagnostic.hasErrors_iff]

/-- An argument that no type is declared for. -/
def untypedWord : Environment :=
  .ofDeclarations {} [⟨{ owner := some "Say", name := "word", kind := .method },
    .command "say <word>"⟩]

theorem generate_fails_untypedWord :
    names "_commands" untypedWord.scopes = .ok ["say_commands"] ∧
      ∃ f, untypedWord.generate {} = .error f := by
  have hnames : names "_commands" untypedWord.scopes = .ok ["say_commands"] := by decide +kernel
  refine ⟨hnames, ?_⟩
  have hfails := (generate_fails_iff_argumentType
    (Environment.assembled_ofDeclarations {} _ : untypedWord.Assembled) {}).1 ⟨_, hnames⟩
  exact hfails.mpr (by decide +kernel)

/-! ## Acceptance -/

/-- What a round asks of the environment that it assembled. -/
structure Accepted (settings : Settings) (env : Environment) : Prop where
  silent : env.diagnostics = []
  once : env.bindings.Pairwise fun b b' => ¬(b.node = b'.node ∧ b.role = b'.role)
  publicFinal : ∀ b ∈ env.bindings,
    b.site.visibility = .pub ∧ b.site.mutability = .immutable
  typed : ∀ s ∈ env.scopes, ∀ n ∈ s.nodes, (env.tree.node n).identity.kind = .argument →
    (env.tree.node n).declaredType ≠ none ∨
      ∃ b ∈ env.bindings, b.node = n ∧ b.role = .type ∧ b.site.scope = s.name
  placed : ∀ b ∈ env.bindings, b.role = .type ∨ b.role = .suggestions →
    (env.tree.node b.node).identity.kind ≠ .literal
  named : (env.scopes.map (chosenName settings.generation.suffix env.scopes)).Nodup

/-- The conditions are those of the assembly, the lints and the names. -/
theorem accepted_iff (henv : env.Sound) :
    Accepted settings env ↔
      hasErrors env.allDiagnostics = false ∧
        (env.scopes.map (chosenName settings.generation.suffix env.scopes)).Nodup := by
  have honce : env.BoundOnce ↔
      env.bindings.Pairwise fun b b' => ¬(b.node = b'.node ∧ b.role = b'.role) := by
    rw [Environment.BoundOnce, List.Nodup, List.pairwise_map]
    simp
  have hpublic : ∀ b : Binding, b.site.isPublicFinal = true ↔
      b.site.visibility = .pub ∧ b.site.mutability = .immutable := by
    simp [Element.isPublicFinal]
  have hplaced : ∀ b, ¬env.Misplaced b ↔ (b.role = .type ∨ b.role = .suggestions →
      (env.tree.node b.node).identity.kind ≠ .literal) := by
    rintro ⟨node, role, site⟩
    cases role <;> simp [Environment.Misplaced, Role.isForArgument]
  rw [allDiagnostics_hasErrors henv, Lint.run_hasErrors henv,
    Lint.argumentType_hasErrors henv.toWellFormed, honce]
  simp only [hpublic, hplaced]
  constructor
  · rintro ⟨hsilent, honce, hpublic, htyped, hplaced, hnamed⟩
    exact ⟨⟨hsilent, honce, hpublic, htyped, hplaced⟩, hnamed⟩
  · rintro ⟨⟨hsilent, honce, hpublic, htyped, hplaced⟩, hnamed⟩
    exact ⟨hsilent, honce, hpublic, htyped, hplaced, hnamed⟩

/-- A round succeeds exactly if no error is reported and something is generated. -/
theorem exists_compile_eq_ok :
    (∃ out, compile settings ds = .ok out) ↔
      hasErrors (Environment.ofDeclarations settings ds).allDiagnostics = false ∧
        ∃ text, (Environment.ofDeclarations settings ds).generate settings.generation =
          .ok text := by
  constructor
  · rintro ⟨out, h⟩
    obtain ⟨hno, hgen, -⟩ := compile_eq_ok h
    exact ⟨hno, _, hgen⟩
  · rintro ⟨hno, text, hgen⟩
    refine ⟨⟨text, (Environment.ofDeclarations settings ds).allDiagnostics⟩, ?_⟩
    unfold compile
    simp only [hno, hgen, Bool.false_eq_true, if_false]

/-- A round succeeds exactly if the environment that it assembles is accepted. It then warns, and
no warning is an error; and if it fails, there is an error. -/
theorem compile_succeeds_iff (settings : Settings) (ds : List Declaration) :
    ((∃ out, compile settings ds = .ok out) ↔
      Accepted settings (Environment.ofDeclarations settings ds)) ∧
    (∀ out, compile settings ds = .ok out → ∀ d ∈ out.warnings, d.severity ≠ .error) ∧
    ∀ diagnostics, compile settings ds = .error diagnostics →
      ∃ d ∈ diagnostics, d.severity = .error := by
  have henv := (Environment.assembled_ofDeclarations settings ds).sound
  refine ⟨?_, ?_, ?_⟩
  · rw [exists_compile_eq_ok, accepted_iff henv, generate_eq_ok_iff henv]
    refine and_congr_right fun hno => and_iff_left ?_
    exact ((Lint.run_hasErrors henv).mp ((allDiagnostics_hasErrors henv).mp hno).2).2.2
  · intro out h d hd
    obtain ⟨hno, -, hwarnings⟩ := compile_eq_ok h
    exact Diagnostic.hasErrors_eq_false.mp hno d (hwarnings ▸ hd)
  · intro diagnostics h
    rcases compile_eq_error h with ⟨herrors, rfl⟩ | ⟨-, f, -, rfl⟩
    · exact Diagnostic.hasErrors_iff.mp herrors
    · exact ⟨_, List.mem_append_right _ (List.mem_singleton.mpr rfl), rfl⟩

end CommandTree
