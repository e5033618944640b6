import CommandTree.Proofs.Assembly.Following

/-!
# What a declaration comes to

A declaration is either reported or realised, and never dropped. Each part of placing a command
only adds diagnostics, and if it adds none it has done what it is there for (`ReportsOr`): a node
that is reached is known to be what was declared, a word is an alias of the node, and a walk has
arrived where its tokens lead (`Arrived`). A binding either reports and changes nothing else, or
adds its element to the node that its path leads to (`bindElement_cases`). All else stays as it is
then (`Alike`).
-/

namespace CommandTree

open Namespace (IsName Token)

/-- What is declared of an argument is known of the node. -/
def Node.Knows (n : Node) (info : ArgumentInfo) : Prop :=
  ∃ known, n.detail = .argument known ∧ info.Extends known

theorem Node.Knows.extends {n n' : Node} {info : ArgumentInfo} (h : n.Knows info)
    (hext : n.Extends n') : n'.Knows info := by
  obtain ⟨known, hdetail, hinfo⟩ := h
  have hkept := hext.detail
  rw [hdetail] at hkept
  obtain ⟨known', hdetail', hinfo'⟩ := hkept.exists_argument
  exact ⟨known', hdetail', hinfo.trans hinfo'⟩

/-- What is merged into an argument without a conflict is known of it. -/
theorem Tree.knows_mergeArgument {t : Tree} {id : Nat} {old info : ArgumentInfo}
    (hid : (t.node id).aliasOf = none) (hold : (t.node id).detail = .argument old)
    (h : (t.mergeArgument id info).2 = none) :
    ((t.mergeArgument id info).1.node id).Knows info := by
  have hlt : id < t.size := lt_size_of_ne_root fun heq => by simp [heq, Node.root] at hold
  have heq : t.mergeArgument id info =
      (t.modify id fun n => { n with detail := .argument (old.merge info).1 },
        (old.merge info).2) := by
    simp [Tree.mergeArgument, primary_of_aliasOf_eq_none hid, hold]
  rw [heq] at h ⊢
  refine ⟨(old.merge info).1, ?_, ArgumentInfo.extends_merge_incoming h⟩
  rw [node_modify, if_pos ⟨rfl, hlt⟩]

namespace Environment

/-! ## Reporting or being done -/

/-- Only diagnostics that satisfy `Q` are added, and if there is none, `P` holds. -/
def ReportsOr (Q : Diagnostic → Prop) (env env' : Environment) (P : Prop) : Prop :=
  ∃ ds, env'.diagnostics = env.diagnostics ++ ds ∧ (∀ d ∈ ds, Q d) ∧ (ds = [] → P)

namespace ReportsOr

variable {Q : Diagnostic → Prop} {env env₁ env₂ : Environment} {P P' : Prop}

theorem quiet (h : env₁.diagnostics = env.diagnostics) (hp : P) : ReportsOr Q env env₁ P :=
  ⟨[], by simp [h], by simp, fun _ => hp⟩

theorem reported {d : Diagnostic} (h : env₁.diagnostics = env.diagnostics ++ [d]) (hd : Q d) :
    ReportsOr Q env env₁ P :=
  ⟨[d], h, by simpa using hd, by simp⟩

/-- Of two steps in a row one reports, or both come to what they are to come to. -/
theorem seq (h : ReportsOr Q env env₁ P) (h' : ReportsOr Q env₁ env₂ P') :
    ReportsOr Q env env₂ (P ∧ P') := by
  obtain ⟨ds, hds, hQ, hP⟩ := h
  obtain ⟨ds', hds', hQ', hP'⟩ := h'
  refine ⟨ds ++ ds', by rw [hds', hds, List.append_assoc], ?_, fun hnil => ?_⟩
  · exact List.forall_mem_append.mpr ⟨hQ, hQ'⟩
  · obtain ⟨hnil, hnil'⟩ := List.append_eq_nil_iff.mp hnil
    exact ⟨hP hnil, hP' hnil'⟩

theorem imp (h : ReportsOr Q env env₁ P) (hp : P → P') : ReportsOr Q env env₁ P' := by
  obtain ⟨ds, hds, hQ, hP⟩ := h
  exact ⟨ds, hds, hQ, fun hnil => hp (hP hnil)⟩

/-- If the diagnostics are the same, nothing was reported. -/
theorem of_eq (h : ReportsOr Q env env₁ P) (heq : env₁.diagnostics = env.diagnostics) : P := by
  obtain ⟨ds, hds, -, hP⟩ := h
  rw [heq] at hds
  exact hP (by simpa using hds.symm)

end ReportsOr

/-! ## Placing commands -/

/-- A word that is not reported is an alias of the node. -/
theorem addAlias_reportsOr {env : Environment} {parent node : Nat} (henv : env.WellFormed)
    (h : env.Stands parent node .literal) (site : Element) (text : String) (token : Token)
    (word : String) :
    ReportsOr (Diagnostic.IsErrorAt .mergeConflict site) env
      (addAlias site text token node env word)
      (word ∈ ((addAlias site text token node env word).tree.node node).aliases) := by
  have hprimary := Tree.primary_of_aliasOf_eq_none h.aliasOf
  unfold addAlias
  rcases env.tree.addAlias_cases node word with
    ⟨heq, hor⟩ | ⟨_, _, -, -, heq⟩ | ⟨p, hp, hfind, heq⟩
  · rw [hprimary, h.parent] at hor
    rw [heq]
    exact .quiet rfl (hor.resolve_right (by simp))
  · rw [heq]
    exact .reported rfl ⟨rfl, rfl, rfl⟩
  · rw [hprimary] at hp heq
    obtain rfl := Option.some.inj (h.parent.symm.trans hp)
    have hgrafted := Tree.grafted_pushEntry henv.tree (h.graftable henv hfind) h.parent
    have hne : node ≠ env.tree.size := Nat.ne_of_lt (henv.tree.parent_lt h.parent).2.1
    rw [heq]
    refine .quiet rfl ?_
    dsimp only
    rw [hgrafted.aliases_of_ne hne]
    simp [Tree.aliasEntry, Identity.literal]

/-- Words that are not reported are aliases of the node. -/
theorem foldl_addAlias_reportsOr {env : Environment} {parent node : Nat} (henv : env.WellFormed)
    (site : Element) (text : String) (token : Token) {kind : Kind}
    (h : env.Stands parent node kind) (words : List String)
    (hkind : words ≠ [] → kind = .literal) (hwords : ∀ word ∈ words, IsName word) :
    ReportsOr (Diagnostic.IsErrorAt .mergeConflict site) env
      (words.foldl (addAlias site text token node) env)
      (∀ word ∈ words,
        word ∈ ((words.foldl (addAlias site text token node) env).tree.node node).aliases) := by
  induction words generalizing env with
  | nil => exact .quiet rfl (by simp)
  | cons word rest ih =>
    obtain rfl := hkind (by simp)
    rw [List.forall_mem_cons] at hwords
    have hsteps := addAlias_steps henv h site text token hwords.1
    have h₁ := hsteps.wellFormed henv
    have hnode := h.extends henv (hsteps.extends henv)
    have hext := (foldl_addAlias_steps h₁ site text token hnode rest (fun _ => rfl)
      hwords.2).extends h₁
    refine ((addAlias_reportsOr henv h site text token word).seq
      (ih h₁ hnode (fun _ => rfl) hwords.2)).imp ?_
    rintro ⟨hword, hrest⟩
    refine List.forall_mem_cons.mpr ⟨?_, hrest⟩
    exact (hext.tree.node (h₁.tree.parent_lt hnode.parent).2.1).aliases.subset hword

/-- A node that is met without a conflict knows what is declared of it. -/
theorem meet_reportsOr {env : Environment} (henv : env.WellFormed) {site : Element}
    {text : String} {token : Token} {detail : Detail} (hfits : detail.Fits token.identity.kind)
    {existing : Nat} (hnone : (env.tree.node existing).aliasOf = none) (hpos : 0 < existing)
    (hlt : existing < env.tree.size) :
    ReportsOr (Diagnostic.IsErrorAt .mergeConflict site) env
      (env.meet site text token detail existing).1
      ((env.meet site text token detail existing).2 = some existing ∧
        ∀ info, detail = .argument info →
          ((env.meet site text token detail existing).1.tree.node existing).Knows info) := by
  rcases env.meet_cases site text token detail existing with
    ⟨-, message, h⟩ | ⟨hkind, ⟨hno, h⟩ | ⟨info, rfl, ⟨message, h⟩ | ⟨hmerge, h⟩⟩⟩
  · rw [h]
    exact .reported rfl ⟨rfl, rfl, rfl⟩
  · rw [h]
    exact .quiet rfl ⟨rfl, fun info hinfo => absurd hinfo (hno info)⟩
  · rw [h]
    exact .reported rfl ⟨rfl, rfl, rfl⟩
  · -- only an argument can be of the kind of a token with such a detail
    have hargument : token.identity.kind = .argument := hfits.argument_iff.mp ⟨info, rfl⟩
    obtain ⟨old, hold⟩ := (henv.tree.detail hpos hlt).argument_iff.mpr (hkind.trans hargument)
    rw [h]
    refine .quiet rfl ⟨rfl, ?_⟩
    rintro info' ⟨⟩
    exact Tree.knows_mergeArgument hnone hold hmerge

/-- The node is where the tokens lead, and it has the aliases of the last of them. -/
structure Arrived (env : Environment) (site : Element) (tokens : List Token)
    (parent last : Nat) : Prop where
  leads : env.Leads site parent (tokens.map (·.identity)) last
  aliases : ∀ token ∈ tokens.getLast?, ∀ word ∈ token.aliases,
    word ∈ (env.tree.node last).aliases

theorem Arrived.cons {env : Environment} {site : Element} {token : Token} {rest : List Token}
    {parent node last : Nat} (hfirst : env.Arrived site [token] parent node)
    (hrest : env.Arrived site rest node last) : env.Arrived site (token :: rest) parent last := by
  obtain ⟨hleads, haliases⟩ := hfirst
  cases hleads with
  | cons hfind hkind hscope hnil =>
    cases hnil
    refine ⟨.cons hfind hkind hscope hrest.leads, ?_⟩
    cases rest with
    | nil =>
      cases hrest.leads
      exact haliases
    | cons next rest =>
      rw [List.getLast?_cons_cons]
      exact hrest.aliases

theorem Arrived.extends {env env' : Environment} {site : Element} {tokens : List Token}
    {parent last : Nat} (h : env.Arrived site tokens parent last) (hext : env.Extends env')
    (henv : env.WellFormed) (henv' : env'.WellFormed) (hlt : parent < env.tree.size) :
    env'.Arrived site tokens parent last :=
  ⟨h.leads.extends hext henv henv' hlt, fun token ht word hword =>
    (hext.tree.node (h.leads.lt henv hlt)).aliases.subset (h.aliases token ht word hword)⟩

namespace Ready

variable {site : Element} {text : String} {info : Option ArgumentInfo} {token : Token}
  {rest : List Token} {parent : Nat} {env env₁ : Environment}
  (h : Ready site info (token :: rest) parent env)

include h

/-- Unless a conflict is reported, the name of the token leads to the node that is reached. -/
theorem reach_reportsOr {result : Option Nat}
    (hr : env.reach site text parent token (detailOf info token rest) = (env₁, result)) :
    ReportsOr (Diagnostic.IsErrorAt .mergeConflict site) env env₁
      (∃ node child, result = some node ∧
        env₁.tree.find parent token.identity.name = some child ∧
        env₁.tree.primary child = node ∧
        (rest = [] → ∀ i ∈ info, (env₁.tree.node node).Knows i)) := by
  obtain ⟨hsteps, hstands⟩ := h.reach_steps text
  rw [hr] at hsteps hstands
  have h₁ := hsteps.wellFormed h.wellFormed
  have hext := hsteps.extends h.wellFormed
  have hdetail : rest = [] → ∀ i ∈ info, detailOf info token rest = .argument i := by
    rintro rfl i hi
    rw [Option.mem_def.mp hi]
    rfl
  unfold reach at hr
  split at hr
  · rename_i existing hfind
    obtain ⟨hlt, hlt'⟩ := h.wellFormed.tree.find_lt hfind
    have hpos := (h.wellFormed.tree.parent_lt
      (h.wellFormed.tree.parent_of_find h.aliasOf hfind)).1
    have hmeet := @meet_reportsOr env h.wellFormed site text token _ h.fits
      (env.tree.primary existing) (h.wellFormed.tree.aliasOf_primary existing) hpos hlt'
    rw [hr] at hmeet
    refine hmeet.imp ?_
    rintro ⟨hresult, hknows⟩
    exact ⟨_, existing, hresult, hext.tree.find h.wellFormed.tree h₁.tree h.lt hfind,
      hext.tree.primary hlt, fun hrest i hi => hknows i (hdetail hrest i hi)⟩
  · rename_i hfind
    cases hr
    have hnode := hstands _ rfl
    have hnew := Tree.graftable_command h.lt h.aliasOf hfind h.fits (some site)
    have hsize := (Tree.grafted_insert h.wellFormed.tree hnew).node_size
    refine .quiet rfl ⟨_, env.tree.size, rfl, ?_, Tree.primary_of_aliasOf_eq_none hnode.aliasOf,
      fun hrest i hi => ⟨i, ?_, id, id⟩⟩
    · have hfound := h₁.tree.find_of_parent hnode.parent
      rwa [hsize] at hfound
    · dsimp only
      rw [hsize]
      exact hdetail hrest i hi

/-- Unless a conflict is reported, the first token of a walk leads to the node below which the walk
goes on. -/
theorem next_reportsOr {node : Nat}
    (hr : env.reach site text parent token (detailOf info token rest) = (env₁, some node)) :
    ReportsOr (Diagnostic.IsErrorAt .mergeConflict site) env (env₁.settle site text token node)
      ((env₁.settle site text token node).Arrived site [token] parent node ∧
        (rest = [] → ∀ i ∈ info,
          ((env₁.settle site text token node).tree.node node).Knows i)) := by
  obtain ⟨hreach, hnode, hsettle, hnext⟩ := h.next hr
  have h₁ := hreach.wellFormed h.wellFormed
  have hext := hsettle.extends h₁
  obtain ⟨hpos, hlt, -⟩ := h₁.tree.parent_lt hnode.parent
  have haliases := foldl_addAlias_reportsOr h₁ site text token hnode token.aliases
    (h.aliased token List.mem_cons_self) (h.names token List.mem_cons_self).2
  refine ((h.reach_reportsOr hr).seq haliases).imp ?_
  rintro ⟨⟨_, child, ⟨⟩, hfind, hprimary, hknows⟩, hwords⟩
  have hprimary' := (hext.tree.primary (h₁.tree.find_lt hfind).1).trans hprimary
  have hfind' := hext.tree.find h₁.tree hnext.wellFormed.tree
    (Nat.lt_of_lt_of_le h.lt (hreach.extends h.wellFormed).tree.size_le) hfind
  refine ⟨⟨.cons hfind' ?_ ?_ ?_, ?_⟩, fun hrest i hi => (hknows hrest i hi).extends
    (hext.tree.node hlt)⟩
  · rw [hprimary', hext.tree.identity hlt, hnode.kind]
  · rw [hprimary']
    exact hnext.scope.resolve_left (Nat.ne_of_gt hpos)
  · rw [hprimary']
    exact .nil node
  · rintro _ ⟨⟩ word hword
    exact hwords word hword

end Ready

/-- A walk that reports nothing arrives where its tokens lead. -/
theorem walk_reportsOr (site : Element) (text : String) (info : Option ArgumentInfo) :
    ∀ (tokens : List Token) (parent : Nat) (env : Environment),
      Ready site info tokens parent env →
      ReportsOr (Diagnostic.IsErrorAt .mergeConflict site) env
        (walk site text info tokens parent env).1
        (∃ last, (walk site text info tokens parent env).2 = some last ∧
          (walk site text info tokens parent env).1.Arrived site tokens parent last ∧
          (tokens ≠ [] → ∀ i ∈ info,
            ((walk site text info tokens parent env).1.tree.node last).Knows i))
  | [], parent, env, _ => .quiet rfl ⟨parent, rfl, ⟨.nil parent, by simp⟩, by simp⟩
  | token :: rest, parent, env, h => by
    rw [walk]
    cases hr : env.reach site text parent token (detailOf info token rest) with
    | mk env₁ result =>
      cases result with
      | none =>
        refine (h.reach_reportsOr hr).imp ?_
        rintro ⟨_, _, ⟨⟩, -⟩
      | some node =>
        obtain ⟨hreach, -, hsettle, hnext⟩ := h.next hr
        have hext := Steps.extends (hreach.trans hsettle) h.wellFormed
        have hrest := walk_steps site text info rest node _ hnext
        refine ((h.next_reportsOr hr).seq (walk_reportsOr site text info rest node _ hnext)).imp ?_
        rintro ⟨⟨hfirst, hknows⟩, last, hlast, harrived, hknows'⟩
        refine ⟨last, hlast, Arrived.cons (hfirst.extends (hrest.extends hnext.wellFormed)
          hnext.wellFormed (hrest.wellFormed hnext.wellFormed)
          (Nat.lt_of_lt_of_le h.lt hext.tree.size_le)) harrived, fun _ => ?_⟩
        cases rest with
        | nil =>
          obtain rfl := Option.some.inj hlast
          exact hknows rfl
        | cons next rest => exact hknows' (by simp)

/-- The node where the walk of a structural declaration ends. -/
def endOf (env : Environment) (d : Declaration) : Option Nat :=
  match readRoute d.element d.directive env.memo with
  | (.error _, _) => none
  | (.ok route, memo) =>
    (walk d.element route.text route.info route.tokens 0 { env with memo }).2

/-- A structural declaration that cannot be read is reported and changes nothing else. One that can
be read is walked. -/
theorem place_cases {env : Environment} (henv : env.WellFormed) (d : Declaration) :
    (∃ memo added, FailsAt d.element added ∧
      env.place d = { env with memo, diagnostics := env.diagnostics ++ added }) ∨
    ∃ route, d.directive.Reads route ∧
      ReportsOr (Diagnostic.IsErrorAt .mergeConflict d.element) env (env.place d)
        (∃ last, env.endOf d = some last ∧
          (env.place d).Arrived d.element route.tokens 0 last ∧
          ∀ i ∈ route.info, ((env.place d).tree.node last).Knows i) := by
  have hread := steps_readRoute env d.element d.directive
  unfold place endOf
  cases hr : readRoute d.element d.directive env.memo with
  | mk result memo =>
    rw [hr] at hread
    cases result with
    | error added => exact Or.inl ⟨memo, added, readRoute_failsAt henv.memo (by rw [hr]), rfl⟩
    | ok route =>
      have hreads := readRoute_reads henv.memo (congrArg Prod.fst hr)
      have hready := Ready.start (hread.wellFormed henv) d.element hreads.valid
      refine Or.inr ⟨route, hreads, (walk_reportsOr _ route.text _ _ _ _ hready).imp ?_⟩
      rintro ⟨last, hlast, harrived, hknows⟩
      exact ⟨last, hlast, harrived, hknows hreads.valid.tokens_ne⟩

/-! ## Binding elements -/

/-- From a node that is no alias entry, identities lead to one that is none. -/
theorem Leads.aliasOf {env : Environment} {site : Element} {parent last : Nat}
    {identities : List Identity} (h : env.Leads site parent identities last)
    (henv : env.WellFormed) (hnone : (env.tree.node parent).aliasOf = none) :
    (env.tree.node last).aliasOf = none := by
  induction h with
  | nil node => exact hnone
  | cons _ _ _ _ ih => exact ih (henv.tree.aliasOf_primary _)

/-- The environments differ in what is bound, reported and remembered at most. -/
structure Alike (env env' : Environment) : Prop where
  size : env'.tree.size = env.tree.size
  bare : ∀ id, (env'.tree.node id).bare = (env.tree.node id).bare
  scopes : env'.scopes = env.scopes

namespace Alike

variable {env env' env'' : Environment}

theorem refl (env : Environment) : env.Alike env :=
  ⟨rfl, fun _ => rfl, rfl⟩

theorem trans (h : env.Alike env') (h' : env'.Alike env'') : env.Alike env'' :=
  ⟨h'.size.trans h.size, fun id => (h'.bare id).trans (h.bare id), h'.scopes.trans h.scopes⟩

theorem symm (h : env.Alike env') : env'.Alike env :=
  ⟨h.size.symm, fun id => (h.bare id).symm, h.scopes.symm⟩

theorem links (h : env.Alike env') (id : Nat) :
    Tree.SameLinks (env.tree.node id) (env'.tree.node id) :=
  .of_bare (h.bare id)

theorem detail (h : env.Alike env') (id : Nat) :
    (env'.tree.node id).detail = (env.tree.node id).detail :=
  (congrArg Node.detail (h.bare id) :)

theorem origin (h : env.Alike env') (id : Nat) :
    (env'.tree.node id).origin = (env.tree.node id).origin :=
  (congrArg Node.origin (h.bare id) :)

end Alike

/-- The element `site` is bound to a node, and no more has changed than the bindings of this node
and what is remembered. -/
structure Binds (env env' : Environment) (site : Element) (role : Role) (node : Nat) : Prop where
  bindings : env'.bindings = env.bindings ++ [⟨node, role, site⟩]
  scopes : env'.scopes = env.scopes
  diagnostics : env'.diagnostics = env.diagnostics
  size : env'.tree.size = env.tree.size
  node : ∀ id, env'.tree.node id =
    if id = node then
      { env.tree.node id with
        bindings := (env.tree.node id).bindings ++ [env.bindings.length] }
    else env.tree.node id

/-- Binding an element changes bindings and what is remembered at most. -/
theorem Binds.alike {env env' : Environment} {site : Element} {role : Role} {node : Nat}
    (h : env.Binds env' site role node) : env.Alike env' := by
  refine ⟨h.size, fun id => ?_, h.scopes⟩
  rw [h.node]
  split <;> rfl

/-- Recording a binding binds its element. -/
theorem binds_bind {env : Environment} {node : Nat} (hlt : node < env.tree.size)
    (hnone : (env.tree.node node).aliasOf = none) (memo : Namespace.Memo) (role : Role)
    (site : Element) : env.Binds ({ env with memo }.bind node role site) site role node := by
  have hprimary := Tree.primary_of_aliasOf_eq_none hnone
  constructor
  case bindings => simp [Environment.bind, hprimary]
  case scopes => rfl
  case diagnostics => rfl
  case size => simp [Environment.bind, Tree.bind]
  case node =>
    intro id
    simp only [Environment.bind, Tree.bind, hprimary, Tree.node_modify]
    by_cases hid : id = node
    · rw [if_pos ⟨hid, by omega⟩, if_pos hid]
    · rw [if_neg (fun h => hid h.1), if_neg hid]

/-- A binding is reported and changes nothing else, or its element is bound to the node that the
path leads to. -/
theorem bindElement_cases (names : TypeNames) {env : Environment} (henv : env.Orderly)
    (d : Declaration) :
    (∃ memo added, added ≠ [] ∧ (∀ x ∈ added, x.severity = .error ∧ x.site = d.element) ∧
      bindElement names env d = { env with memo, diagnostics := env.diagnostics ++ added }) ∨
    ∃ route role node, d.directive.Reads route ∧ d.element.role names = .ok role ∧
      env.Leads d.element 0 (route.tokens.map (·.identity)) node ∧
      env.Binds (bindElement names env d) d.element role node := by
  have hread := steps_readRoute env d.element d.directive
  unfold bindElement
  split
  · exact Or.inl ⟨env.memo, _, List.cons_ne_nil _ [], by simp [Diagnostic.ofError], rfl⟩
  · rename_i role hrole
    cases hr : readRoute d.element d.directive env.memo with
    | mk result memo =>
      rw [hr] at hread
      cases result with
      | error added =>
        obtain ⟨hne, hadded⟩ := readRoute_failsAt henv.memo (by rw [hr])
        exact Or.inl ⟨memo, added, hne,
          fun x hx => ⟨(hadded x hx).severity, (hadded x hx).site⟩, rfl⟩
      | ok route =>
        dsimp only
        split
        · rename_i node hresolve
          have hleads := (resolve_eq_ok_iff (hread.orderly henv)).mp hresolve
          have hleads : env.Leads d.element 0 (route.tokens.map (·.identity)) node :=
            hleads.extends ⟨.refl _, id⟩ (hread.wellFormed henv.toWellFormed) henv.toWellFormed
              henv.tree.root_lt
          exact Or.inr ⟨route, role, node, readRoute_reads henv.memo (congrArg Prod.fst hr), hrole,
            hleads, binds_bind (hleads.lt henv.toWellFormed henv.tree.root_lt)
              (hleads.aliasOf henv.toWellFormed henv.tree.root_aliasOf) memo role d.element⟩
        · exact Or.inl ⟨memo, _, List.cons_ne_nil _ [],
            by simp [Diagnostic.withSnippet, Diagnostic.ofError], rfl⟩

end Environment

/-! ## No declaration is dropped -/

/-- The other names that a directive gives to the last of its commands. -/
def Directive.aliases : Directive → List String
  | .literal _ aliases => aliases
  | _ => []

/-- The names that a directive gives are on the last token of its route. -/
theorem Directive.Reads.aliases {directive : Directive} {route : Route}
    (h : directive.Reads route) {word : String} (hword : word ∈ directive.aliases) :
    ∃ token ∈ route.tokens.getLast?, word ∈ token.aliases := by
  cases h with
  | @literal segments aliases text tokens _ h _ _ =>
    obtain ⟨last, hlast⟩ := Option.ne_none_iff_exists'.mp
      (mt List.getLast?_eq_none_iff.mp (Namespace.ne_nil_of_tokenize h))
    refine ⟨{ last with aliases }, ?_, hword⟩
    rw [Namespace.getLast?_aliasLast, hlast]
    rfl
  | _ => cases hword

namespace Environment

/-- The commands that a declaration declares are there. -/
structure Realises (env : Environment) (d : Declaration) (route : Route) (last : Nat) : Prop where
  reads : d.directive.Reads route
  leads : env.Leads d.element 0 (route.tokens.map (·.identity)) last
  aliases : ∀ word ∈ d.directive.aliases, word ∈ (env.tree.node last).aliases
  argument : ∀ {segments type suggestions}, d.directive = .argument segments type suggestions →
    ∃ known, (env.tree.node last).detail = .argument known ∧ known.type = some type ∧
      ∀ provider ∈ suggestions, known.suggestions = some provider

/-- At most the diagnostics and what is remembered have changed. -/
structure Untouched (env env' : Environment) : Prop where
  tree : env'.tree = env.tree
  bindings : env'.bindings = env.bindings
  scopes : env'.scopes = env.scopes

/-- What adding a declaration to an environment comes to, if it adds these diagnostics. -/
structure Accounted (names : TypeNames) (env : Environment) (d : Declaration)
    (added : List Diagnostic) : Prop where
  diagnostics : (env.declare names [d]).diagnostics = env.diagnostics ++ added
  errors : ∀ x ∈ added, x.severity = .error ∧ x.site = d.element
  /-- Unless there are errors, commands are declared or the element is bound. -/
  declared : added = [] → d.directive.isStructural = true →
    ∃ route last, (env.declare names [d]).Realises d route last
  bound : added = [] → d.directive.isStructural = false →
    ∃ route role node, d.directive.Reads route ∧ d.element.role names = .ok role ∧
      env.Leads d.element 0 (route.tokens.map (·.identity)) node ∧
      env.Binds (env.declare names [d]) d.element role node
  /-- A binding with an error and a namespace that cannot be read change nothing else. -/
  untouched : (d.directive.isStructural = false ∧ added ≠ []) ∨ (∃ x ∈ added, x.kind = .lex) →
    env.Untouched (env.declare names [d])

theorem declare_of_structural (names : TypeNames) (env : Environment) {d : Declaration}
    (h : d.directive.isStructural = true) : env.declare names [d] = env.place d := by
  simp [declare, h]

theorem declare_of_not_structural (names : TypeNames) (env : Environment) {d : Declaration}
    (h : d.directive.isStructural = false) :
    env.declare names [d] = bindElement names env d := by
  simp [declare, h]

/-- A structural declaration is accounted for. -/
theorem accounted_place (names : TypeNames) {env : Environment} (henv : env.WellFormed)
    {d : Declaration} (h : d.directive.isStructural = true) :
    ∃ added, Accounted names env d added := by
  have heq := declare_of_structural names env h
  rcases place_cases henv d with ⟨memo, added, ⟨hne, hadded⟩, hplace⟩ | ⟨route, hreads, hplace⟩
  · rw [hplace] at heq
    refine ⟨added, by rw [heq], fun x hx => ⟨(hadded x hx).severity, (hadded x hx).site⟩,
      fun hnil => absurd hnil hne, fun hnil => absurd hnil hne, fun _ => ?_⟩
    rw [heq]
    exact ⟨rfl, rfl, rfl⟩
  · obtain ⟨added, hdiagnostics, hadded, hdone⟩ := hplace
    refine ⟨added, by rw [heq, hdiagnostics],
      fun x hx => ⟨(hadded x hx).severity, (hadded x hx).site⟩, fun hnil _ => ?_, ?_, ?_⟩
    · obtain ⟨last, -, harrived, hknows⟩ := hdone hnil
      rw [heq]
      refine ⟨route, last, hreads, harrived.leads, fun word hword => ?_, fun hargument => ?_⟩
      · obtain ⟨token, htoken, hmem⟩ := hreads.aliases hword
        exact harrived.aliases token htoken word hmem
      · rw [hargument] at hreads
        cases hreads with
        | argument _ _ =>
          obtain ⟨known, hdetail, hknown⟩ := hknows _ rfl
          exact ⟨known, hdetail, hknown.type rfl, fun _ hprovider => hknown.suggestions hprovider⟩
    · exact fun _ hno => by simp [h] at hno
    · -- the errors of a walk are conflicts
      rintro (⟨hno, -⟩ | ⟨x, hx, hlex⟩)
      · simp [h] at hno
      · rw [(hadded x hx).kind] at hlex
        cases hlex

/-- A declaration that binds its element is accounted for. -/
theorem accounted_bindElement (names : TypeNames) {env : Environment} (henv : env.Orderly)
    {d : Declaration} (h : d.directive.isStructural = false) :
    ∃ added, Accounted names env d added := by
  have heq := declare_of_not_structural names env h
  have hno : d.directive.isStructural ≠ true := by simp [h]
  rcases bindElement_cases names henv d with
    ⟨memo, added, hne, hadded, hbind⟩ | ⟨route, role, node, hreads, hrole, hleads, hbinds⟩
  · rw [hbind] at heq
    refine ⟨added, by rw [heq], hadded, fun hnil => absurd hnil hne,
      fun hnil => absurd hnil hne, fun _ => ?_⟩
    rw [heq]
    exact ⟨rfl, rfl, rfl⟩
  · rw [← heq] at hbinds
    exact ⟨[], by simpa using hbinds.diagnostics, by simp, fun _ hyes => absurd hyes hno,
      fun _ _ => ⟨route, role, node, hreads, hrole, hleads, hbinds⟩, by simp⟩

/-- The order in which declarations are added: structural ones first. -/
def inOrder (ds : List Declaration) : List Declaration :=
  ds.filter (·.directive.isStructural) ++ ds.filter (!·.directive.isStructural)

/-- Adding declarations in one call comes to adding them one after the other. -/
theorem declare_eq_foldl (names : TypeNames) (env : Environment) (ds : List Declaration) :
    env.declare names ds = (inOrder ds).foldl (fun env d => env.declare names [d]) env := by
  have hplace : ∀ env : Environment, (ds.filter (·.directive.isStructural)).foldl place env =
      (ds.filter (·.directive.isStructural)).foldl (fun env d => env.declare names [d]) env :=
    fun env => List.foldl_ext _ _ env fun env d hd =>
      (declare_of_structural names env (List.mem_filter.mp hd).2).symm
  have hbind : ∀ env : Environment,
      (ds.filter (!·.directive.isStructural)).foldl (bindElement names) env =
        (ds.filter (!·.directive.isStructural)).foldl (fun env d => env.declare names [d]) env :=
    fun env => List.foldl_ext _ _ env fun env d hd =>
      (declare_of_not_structural names env (by simpa using (List.mem_filter.mp hd).2)).symm
  rw [inOrder, List.foldl_append, ← hplace, ← hbind, declare]

theorem Assembled.foldl {env : Environment} (henv : Assembled env) (names : TypeNames)
    (ds : List Declaration) :
    Assembled (ds.foldl (fun env d => env.declare names [d]) env) := by
  induction ds generalizing env with
  | nil => exact henv
  | cons d rest ih => exact ih (henv.declare names [d])

/-- A call adds each of its declarations once. At its turn a declaration is reported as an error, or
it is realised. -/
theorem Assembled.declare_accounted {env : Environment} (henv : Assembled env)
    (names : TypeNames) (ds : List Declaration) :
    (inOrder ds).Perm ds ∧
      env.declare names ds = (inOrder ds).foldl (fun env d => env.declare names [d]) env ∧
      ∀ {before d after}, inOrder ds = before ++ d :: after →
        ∃ added,
          Accounted names (before.foldl (fun env d => env.declare names [d]) env) d added := by
  refine ⟨List.filter_append_perm _ ds, declare_eq_foldl names env ds, ?_⟩
  intro before d after _
  have hturn := (henv.foldl names before).reached.orderly
  cases h : d.directive.isStructural with
  | true => exact accounted_place names hturn.toWellFormed h
  | false => exact accounted_bindElement names hturn h

/-- An argument under a literal that has an alias, a namespace that cannot be read, and two bindings
of which the second leads nowhere. -/
def teleportDeclarations (site : Element) : List Declaration :=
  [⟨site, .bind "teleport <player>"⟩, ⟨site, .argument ["tp", "player"] "Player" none⟩,
    ⟨site, .command "tp  home"⟩, ⟨site, .bind "home"⟩]

theorem teleportDeclarations_accounted :
    let site : Element := { owner := some "Teleport", name := "run", kind := .method }
    let env := empty.declare {} [⟨site, .literal ["teleport"] ["tp"]⟩]
    Assembled env ∧ (env.declare {} (teleportDeclarations site)).diagnostics.length = 2 ∧
      (env.declare {} (teleportDeclarations site)).bindings.map (·.node) = [3] ∧
      ∃ added, Accounted {}
        ([⟨site, .argument ["tp", "player"] "Player" none⟩, ⟨site, .command "tp  home"⟩].foldl
          (fun env d => env.declare {} [d]) env) ⟨site, .bind "teleport <player>"⟩ added := by
  intro site env
  have henv : Assembled env := .declare .empty {} _
  have hdiagnostics : (env.declare {} (teleportDeclarations site)).diagnostics.length = 2 := by
    decide +kernel
  have hbindings : (env.declare {} (teleportDeclarations site)).bindings.map (·.node) = [3] := by
    decide +kernel
  have horder : inOrder (teleportDeclarations site) =
      [⟨site, .argument ["tp", "player"] "Player" none⟩, ⟨site, .command "tp  home"⟩] ++
        ⟨site, .bind "teleport <player>"⟩ :: [⟨site, .bind "home"⟩] := rfl
  exact ⟨henv, hdiagnostics, hbindings, (henv.declare_accounted {} _).2.2 horder⟩

end Environment

end CommandTree
