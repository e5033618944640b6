import CommandTree.Proofs.Factory.Text
import CommandTree.Proofs.Independence.Factories

/-!
# Families of commands do not interfere

Two families of declarations that have no type and no top-level name in common may be declared
together. What is reported of one family, when its declarations are assembled and by the lints, is
what is reported of it alone, and the generated functions of its types have the same bodies
(`Interleaves.independent`). Their names may be others: a type is named by its whole path if another
type has its last name.
-/

namespace CommandTree

open Environment (ofDeclarations)
open Factory (block inside ofEnvironment preamble)

/-- A family of declarations comes to the same with and without another one. -/
theorem Interleaves.independent (settings : Settings) {ds₁ ds₂ ds : List Declaration}
    (hall : Interleaves ds₁ ds₂ ds)
    (htypes : ∀ d₁ ∈ ds₁, ∀ d₂ ∈ ds₂, d₁.element.scope ≠ d₂.element.scope)
    (hnames : ∀ d₁ ∈ ds₁, ∀ d₂ ∈ ds₂, ∀ name ∈ d₁.topNames, name ∉ d₂.topNames) :
    let types := ds₁.map (·.element.scope)
    let env₁ := ofDeclarations settings ds₁
    let env := ofDeclarations settings ds
    (env.diagnostics.filter fun d => d.site.scope ∈ types) = env₁.diagnostics ∧
      ((Lint.run Lint.all env).filter fun d => d.site.scope ∈ types) = Lint.run Lint.all env₁ ∧
      ∀ (g : GenerationSettings) (text text₁ : String),
        env.generate g = .ok text → env₁.generate g = .ok text₁ →
        ∃ fs fs₁, ofEnvironment g.suffix env = .ok fs ∧ ofEnvironment g.suffix env₁ = .ok fs₁ ∧
          text = preamble g fs ++ "\n".intercalate (fs.map (block g.sender)) ∧
          text₁ = preamble g fs₁ ++ "\n".intercalate (fs₁.map (block g.sender)) ∧
          (fs.filter fun f => f.scope ∈ types).map (fun f => (f.scope, inside f.body)) =
            fs₁.map fun f => (f.scope, inside f.body) := by
  intro types env₁ env
  obtain ⟨r, h⟩ := Environment.exists_embeds settings hall htypes hnames
  have hassembled := Environment.assembled_ofDeclarations settings ds
  have hsound := hassembled.sound
  have hsound₁ := (Environment.assembled_ofDeclarations settings ds₁).sound
  refine ⟨h.diagnostics, h.filter_run hsound₁ hsound hassembled.scope_site, ?_⟩
  intro g text text₁ htext htext₁
  obtain ⟨fs, hfs, rfl⟩ := Factory.generate_eq_ok.mp htext
  obtain ⟨fs₁, hfs₁, rfl⟩ := Factory.generate_eq_ok.mp htext₁
  refine ⟨fs, fs₁, hfs, hfs₁, Factory.file_eq g fs, Factory.file_eq g fs₁, ?_⟩
  have hbodies := congrArg (List.map fun p : String × List Factory.Statement => (p.1, inside p.2))
    (h.factories hsound₁ hsound hfs hfs₁)
  simpa only [List.map_map, Function.comp_def] using hbodies

/-- Two types with the same last name. The first family has a conflict, and the second tries to bind
a command of the first. -/
theorem teleport_independent :
    let run : Element := { owner := some "travel::Run", name := "run", kind := .method }
    let home : Element := { owner := some "base::Run", name := "go", kind := .method }
    let ds₁ : List Declaration :=
      [⟨run, .literal ["teleport"] ["tp"]⟩, ⟨run, .argument ["tp", "player"] "Player" none⟩,
        ⟨run, .command "teleport player"⟩, ⟨run, .bind "teleport <player>"⟩]
    let ds₂ : List Declaration :=
      [⟨home, .literal ["home"] ["base"]⟩, ⟨home, .bind "home"⟩, ⟨home, .bind "teleport <player>"⟩]
    let ds : List Declaration :=
      [⟨home, .literal ["home"] ["base"]⟩, ⟨run, .literal ["teleport"] ["tp"]⟩,
        ⟨home, .bind "home"⟩, ⟨run, .argument ["tp", "player"] "Player" none⟩,
        ⟨home, .bind "teleport <player>"⟩,
        ⟨run, .command "teleport player"⟩, ⟨run, .bind "teleport <player>"⟩]
    let g : GenerationSettings := {}
    let types := ds₁.map (·.element.scope)
    let env₁ := ofDeclarations {} ds₁
    let env := ofDeclarations {} ds
    Interleaves ds₁ ds₂ ds ∧ env₁.diagnostics.length = 1 ∧ env.diagnostics.length = 2 ∧
      (ofEnvironment g.suffix env₁).map (List.map (·.name)) = .ok ["run_commands"] ∧
      (ofEnvironment g.suffix env).map (List.map (·.name)) =
        .ok ["base_run_commands", "travel_run_commands"] ∧
      (env.diagnostics.filter fun d => d.site.scope ∈ types) = env₁.diagnostics ∧
      ((Lint.run Lint.all env).filter fun d => d.site.scope ∈ types) = Lint.run Lint.all env₁ ∧
      ∃ text text₁ fs fs₁, env.generate g = .ok text ∧ env₁.generate g = .ok text₁ ∧
        ofEnvironment g.suffix env = .ok fs ∧ ofEnvironment g.suffix env₁ = .ok fs₁ ∧
        text = preamble g fs ++ "\n".intercalate (fs.map (block g.sender)) ∧
        text₁ = preamble g fs₁ ++ "\n".intercalate (fs₁.map (block g.sender)) ∧
        (fs.filter fun f => f.scope ∈ types).map (fun f => (f.scope, inside f.body)) =
          fs₁.map fun f => (f.scope, inside f.body) := by
  intro run home ds₁ ds₂ ds g types env₁ env
  have hall : Interleaves ds₁ ds₂ ds :=
    .right _ (.left _ (.right _ (.left _ (.right _ (.left _ (.left _ .nil))))))
  have hnames : ∀ d₁ ∈ ds₁, ∀ d₂ ∈ ds₂, ∀ name ∈ d₁.topNames, name ∉ d₂.topNames := by
    decide +kernel
  have hok : (env.generate g).isOk = true := by decide +kernel
  have hok₁ : (env₁.generate g).isOk = true := by decide +kernel
  obtain ⟨hdiagnostics, hlints, hfactories⟩ := hall.independent {} (by decide) hnames
  refine ⟨hall, by decide +kernel, by decide +kernel, by decide +kernel, by decide +kernel,
    hdiagnostics, hlints, ?_⟩
  cases htext : env.generate g with
  | error f => simp [htext, Except.isOk, Except.toBool] at hok
  | ok text =>
    cases htext₁ : env₁.generate g with
    | error f => simp [htext₁, Except.isOk, Except.toBool] at hok₁
    | ok text₁ =>
      obtain ⟨fs, fs₁, hrest⟩ := hfactories g text text₁ htext htext₁
      exact ⟨text, text₁, fs, fs₁, rfl, rfl, hrest⟩

end CommandTree
