import CommandTree.Proofs.Assembly.Coverage

/-!
# Which declaration made a command

Declarations are added by several calls, one after the other (`declareAll`), and in each call the
structural declarations are placed first. Each of them has its *turn* (`turns`, `allTurns`): the
environment that it finds. A declaration makes a node if the tree has the node after its turn and
not before (`Makes`).

A walk makes a command only where a token leads nowhere, and what it makes besides are alias
entries. So it marks each of its new commands with the element of its declaration (`Marks.walk`),
and every command keeps the mark of the declaration that made it (`exists_turn`).
-/

namespace CommandTree.Environment

open Namespace (Token)

variable {env env' : Environment} {site : Element}

/-! ## Turns -/

/-- The turns of declarations that are placed one after the other: each with the environment that
it finds. -/
def turns (env : Environment) : List Declaration → List (Environment × Declaration)
  | [] => []
  | d :: ds => (env, d) :: turns (env.place d) ds

/-- The environment after several calls, each of which adds declarations with settings of its
own. -/
def declareAll (env : Environment) : List (TypeNames × List Declaration) → Environment
  | [] => env
  | (names, ds) :: calls => declareAll (env.declare names ds) calls

/-- The turns of the structural declarations of several calls. -/
def allTurns (env : Environment) :
    List (TypeNames × List Declaration) → List (Environment × Declaration)
  | [] => []
  | (names, ds) :: calls =>
    env.turns (ds.filter (·.directive.isStructural)) ++ allTurns (env.declare names ds) calls

/-- Placing the declaration makes the node `n`. -/
def Makes (env : Environment) (d : Declaration) (n : Nat) : Prop :=
  env.tree.size ≤ n ∧ n < (env.place d).tree.size

/-! ## Marks -/

/-- The commands of `env'` that are new have the element as their origin. -/
def Marks (site : Element) (env env' : Environment) : Prop :=
  ∀ n ∈ env'.tree.commands, n ∈ env.tree.commands ∨ (env'.tree.node n).origin = some site

theorem Marks.of_commands_eq (h : env'.tree.commands = env.tree.commands) : Marks site env env' :=
  fun _ hn => Or.inl (h ▸ hn)

/-- Two runs that mark their commands mark all of them. -/
theorem Marks.trans {env'' : Environment} (h : Marks site env env') (h' : Marks site env' env'')
    (hext : env'.tree.Extends env''.tree) : Marks site env env'' := by
  intro n hn
  rcases h' n hn with hn | horigin
  · refine (h n hn).imp_right fun horigin => ?_
    rw [(hext.node (Tree.mem_commands.mp hn).2.1).origin, horigin]
  · exact Or.inr horigin

variable {info : Option ArgumentInfo} {token : Token} {rest : List Token} {parent : Nat}

/-- A command that is made for a token is marked with the site. -/
theorem Marks.reach (h : Ready site info (token :: rest) parent env) (text : String) :
    Marks site env (env.reach site text parent token (detailOf info token rest)).1 := by
  unfold Environment.reach
  cases hfind : env.tree.find parent token.identity.name with
  | some existing => exact .of_commands_eq (commands_meet _ _ _ _ _ _)
  | none =>
    have hnew := Tree.graftable_command h.lt h.aliasOf hfind h.fits (some site)
    intro n hn
    rw [Tree.commands_insert h.wellFormed.tree, List.mem_append, List.mem_singleton] at hn
    refine hn.imp_right ?_
    rintro rfl
    rw [(Tree.grafted_insert h.wellFormed.tree hnew).node_size]

/-- A walk marks its new commands. -/
theorem Marks.walk (text : String) (tokens : List Token) :
    ∀ {parent : Nat} {env : Environment}, Ready site info tokens parent env →
      Marks site env (walk site text info tokens parent env).1 := by
  induction tokens with
  | nil => exact fun _ => .of_commands_eq rfl
  | cons token rest ih =>
    intro parent env h
    have hreach := Marks.reach h text
    rw [Environment.walk]
    cases hr : env.reach site text parent token (detailOf info token rest) with
    | mk env₁ result =>
      rw [hr] at hreach
      cases result with
      | none => exact hreach
      | some node =>
        obtain ⟨hsteps, -, hsettle, hnext⟩ := h.next hr
        have h₁ := hsteps.wellFormed h.wellFormed
        have hsettled : Marks site env₁ (env₁.settle site text token node) :=
          .of_commands_eq (commands_foldl_addAlias _ _ _ _ _ _)
        exact (hreach.trans hsettled (hsettle.extends h₁).tree).trans (ih hnext)
          ((walk_steps site text info rest node _ hnext).extends hnext.wellFormed).tree

/-- Merging a structural declaration marks the commands that it makes with the declaration's
element. -/
theorem Marks.place (henv : env.WellFormed) (d : Declaration) :
    Marks d.element env (env.place d) := by
  obtain ⟨memo, -, ⟨added, -, heq⟩ | ⟨route, -, hready, heq⟩⟩ := place_eq henv d
  · rw [heq]
    exact .of_commands_eq rfl
  · rw [heq]
    exact Marks.walk route.text route.tokens hready

/-! ## Whole calls -/

/-- A command that a declaration adds is a node that it makes. -/
theorem makes_of_mem_commands (henv : env.WellFormed) {d : Declaration} {n : Nat}
    (hold : n ∉ env.tree.commands) (hnew : n ∈ (env.place d).tree.commands) : env.Makes d n := by
  obtain ⟨hpos, hlt, hnone⟩ := Tree.mem_commands.mp hnew
  refine ⟨Nat.le_of_not_lt fun hn => hold (Tree.mem_commands.mpr ⟨hpos, hn, ?_⟩), hlt⟩
  rwa [← ((place_steps henv d).extends henv).tree.aliasOf hn]

/-- The declaration at a turn made the command, and its element is the origin. -/
def MadeAt (env : Environment) (n : Nat) (turn : Environment × Declaration) : Prop :=
  turn.1.Makes turn.2 n ∧ (env.tree.node n).origin = some turn.2.element

theorem MadeAt.extends {n : Nat} {turn : Environment × Declaration} (h : env.MadeAt n turn)
    (hn : n ∈ env.tree.commands) (hext : env.tree.Extends env'.tree) : env'.MadeAt n turn :=
  ⟨h.1, by rw [(hext.node (Tree.mem_commands.mp hn).2.1).origin, h.2]⟩

/-- A command that was not there is made at the turn of one declaration. -/
theorem exists_turn_of_place {ds : List Declaration} (henv : env.WellFormed) {n : Nat}
    (hn : n ∈ (ds.foldl Environment.place env).tree.commands) :
    n ∈ env.tree.commands ∨
      ∃ turn ∈ env.turns ds, (ds.foldl Environment.place env).MadeAt n turn := by
  induction ds generalizing env with
  | nil => exact Or.inl hn
  | cons d rest ih =>
    have hplace := (place_steps henv d).wellFormed henv
    rcases ih hplace hn with hmem | ⟨turn, hturn, hmade⟩
    · by_cases hold : n ∈ env.tree.commands
      · exact Or.inl hold
      · have hmade : (env.place d).MadeAt n (env, d) :=
          ⟨makes_of_mem_commands henv hold hmem, (Marks.place henv d n hmem).resolve_left hold⟩
        exact Or.inr ⟨(env, d), List.mem_cons_self,
          hmade.extends hmem ((foldl_steps place_steps rest hplace).extends hplace).tree⟩
    · exact Or.inr ⟨turn, List.mem_cons_of_mem _ hturn, hmade⟩

theorem commands_foldl_bindElement (names : TypeNames) (bs : List Declaration) :
    (bs.foldl (bindElement names) env).tree.commands = env.tree.commands := by
  induction bs generalizing env with
  | nil => rfl
  | cons d rest ih =>
    rw [List.foldl_cons, ih]
    rcases bindElement_eq names env d with ⟨_, _, heq⟩ | ⟨_, _, _, heq⟩
    · rw [heq]
    · rw [heq]
      exact Tree.commands_bind _ _ _

theorem declareAll_steps (henv : env.WellFormed) (calls : List (TypeNames × List Declaration)) :
    env.Steps (env.declareAll calls) := by
  induction calls generalizing env with
  | nil => exact .refl
  | cons call calls ih =>
    have hdeclare := declare_steps call.1 henv call.2
    exact hdeclare.trans (ih (hdeclare.wellFormed henv))

/-- Every command was there before the calls, or one of their declarations made it. -/
theorem exists_turn {calls : List (TypeNames × List Declaration)} (henv : env.WellFormed) {n : Nat}
    (hn : n ∈ (env.declareAll calls).tree.commands) :
    n ∈ env.tree.commands ∨ ∃ turn ∈ env.allTurns calls, (env.declareAll calls).MadeAt n turn := by
  induction calls generalizing env with
  | nil => exact Or.inl hn
  | cons call calls ih =>
    obtain ⟨names, ds⟩ := call
    have hsteps := declare_steps names henv ds
    have hwf := hsteps.wellFormed henv
    rcases ih hwf hn with hmem | ⟨turn, hturn, hmade⟩
    · -- binding makes no command, so it was there before or was placed
      have hplaced := hmem
      rw [declare, commands_foldl_bindElement] at hplaced
      have hstructural := foldl_steps place_steps (ds.filter (·.directive.isStructural)) henv
      have hplacing := hstructural.wellFormed henv
      refine (exists_turn_of_place henv hplaced).imp_right ?_
      rintro ⟨turn, hturn, hmade⟩
      have hbound := (foldl_steps (bindElement_steps names)
        (ds.filter (!·.directive.isStructural)) hplacing).extends hplacing
      have hcalls := (declareAll_steps hwf calls).extends hwf
      exact ⟨turn, List.mem_append_left _ hturn,
        hmade.extends hplaced (hbound.trans hcalls).tree⟩
    · exact Or.inr ⟨turn, List.mem_append_right _ hturn, hmade⟩

end CommandTree.Environment
