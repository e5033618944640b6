import CommandTree.Proofs.Acceptance
import CommandTree.Proofs.Factory.Body

/-!
# References in the output

A factory refers to a bound element where it builds the node that the element is bound to, in the
call for the role of the binding. In a round that succeeds each binding has one such reference in
the whole output, and there are no others (`Refers`). It is in the line that the role has in the
text of the node (`roleLine`), and spells out the element (`RefersTo`).

The references of a factory are read off its closed form: they are the first bindings for each
role of each node. As no role of a node is bound twice, these are all bindings of the scope on the
node; sorting the bindings by their nodes and by their scopes does the rest (`flatMap_filter_perm`).
-/

namespace CommandTree

/-- Sorting a list by distinct keys loses and doubles nothing. -/
theorem flatMap_filter_perm {α κ : Type} [DecidableEq κ] (key : α → κ) {keys : List κ}
    {l : List α} (hkeys : keys.Nodup) (hcovers : ∀ a ∈ l, key a ∈ keys) :
    (keys.flatMap fun k => l.filter (key · == k)).Perm l := by
  induction keys generalizing l with
  | nil =>
    have hl : l = [] := List.eq_nil_iff_forall_not_mem.mpr fun a ha => by simpa using hcovers a ha
    rw [hl]
    exact .nil
  | cons k keys ih =>
    obtain ⟨hk, hkeys⟩ := List.nodup_cons.mp hkeys
    have hrest : (keys.flatMap fun k' => l.filter (key · == k')) =
        keys.flatMap fun k' => (l.filter fun a => !(key a == k)).filter (key · == k') := by
      refine List.flatMap_congr fun k' hk' => ?_
      rw [List.filter_filter]
      refine List.filter_congr fun a _ => ?_
      have hne : k' ≠ k := fun h => hk (h ▸ hk')
      by_cases ha : key a = k' <;> simp [ha, hne]
    have hleft := ih (l := l.filter fun a => !(key a == k)) hkeys fun a ha => by
      obtain ⟨ha, hne⟩ := List.mem_filter.mp ha
      exact (List.mem_cons.mp (hcovers a ha)).resolve_left (by simpa using hne)
    rw [List.flatMap_cons, hrest]
    exact (hleft.append_left _).trans (List.filter_append_perm _ _)

/-- Where one member at most is looked for, finding the first is filtering. -/
theorem toList_find? {α : Type} {p : α → Bool} {l : List α}
    (h : l.Pairwise fun a b => ¬(p a = true ∧ p b = true)) : (l.find? p).toList = l.filter p := by
  induction l with
  | nil => rfl
  | cons a l ih =>
    obtain ⟨ha, hl⟩ := List.pairwise_cons.mp h
    by_cases hpa : p a = true
    · have hnone : l.filter p = [] := List.filter_eq_nil_iff.mpr fun b hb hpb => ha b hb ⟨hpa, hpb⟩
      simp [hpa, hnone]
    · simp [hpa, ih hl]

namespace Factory

open Text (quote)

/-! ## References -/

/-- A call that refers to an element: the scope of its factory, the node that is built there, the
role of the call and the value of the element. -/
structure Reference where
  scope : String
  node : Nat
  role : Role
  value : Expr
  deriving DecidableEq, Repr

/-- The reference that a binding is to have. -/
def referenceOf (b : Binding) : Reference :=
  ⟨b.site.scope, b.node, b.role, .ofElement b.site⟩

/-- The references of a statement in the factory of a scope, if `node` tells which node a variable
is for. -/
def Statement.references (scope : String) (node : Nat → Nat) : Statement → List Reference
  | .build v _ builder calls =>
    (Factory.references builder calls).map fun r => ⟨scope, node v, r.1, r.2⟩
  | _ => []

/-- The references of a factory, in the order of its calls. -/
def referencesBy (f : Factory) (node : Nat → Nat) : List Reference :=
  f.body.flatMap (Statement.references f.scope node)

/-- The variables of a factory are for the nodes of a scope, as `node` tells: each node has one, of
its kind and name, and what is hung under it or put into the result is what the tree has there. -/
structure Labels (tree : Tree) (s : Scope) (body : List Statement) (node : Nat → Nat) : Prop where
  perm : ((body.filterMap Statement.defined?).map node).Perm s.nodes
  nodup : s.nodes.Nodup
  identity : ∀ {v m builder calls}, .build v m builder calls ∈ body →
    builder.identity = (tree.node (node v)).identity
  child : ∀ {p c}, p ∈ body.filterMap Statement.defined? → c ∈ body.filterMap Statement.defined? →
    (.addChild p c ∈ body ↔ (tree.node (node c)).parent = some (node p))
  top : ∀ {v}, v ∈ body.filterMap Statement.defined? → (.insert v ∈ body ↔ node v ∈ s.commands)

variable {env : Environment} {s : Scope}

/-- The node that a variable is for. -/
def nodeOf (tree : Tree) (s : Scope) (v : Nat) : Nat :=
  (buildOrder tree s)[v]?.getD 0

theorem nodeOf_varOf {n : Nat} (hn : n ∈ buildOrder env.tree s) :
    nodeOf env.tree s (varOf env.tree s n) = n := by
  simp [nodeOf, varOf, List.getElem?_eq_getElem (List.idxOf_lt_length_of_mem hn)]

/-- The variables of a factory are for the nodes of its scope. -/
theorem labels_bodyOf (henv : env.WellFormed) (hs : s ∈ env.scopes)
    (hfault : ∀ n ∈ s.nodes, fault? env s n = none) :
    Labels env.tree s (bodyOf env s) (nodeOf env.tree s) := by
  have hrooted := henv.rooted hs
  have hperm := perm_nodes henv.tree hrooted
  have hlabel : (buildOrder env.tree s).map (nodeOf env.tree s ∘ varOf env.tree s) =
      buildOrder env.tree s :=
    (List.map_congr_left fun n hn => nodeOf_varOf hn).trans (List.map_id _)
  constructor
  case perm => rwa [defined_bodyOf, List.map_map, hlabel]
  case nodup => exact hrooted.nodup
  case identity =>
    intro v m builder calls h
    obtain ⟨n, hn, rfl, -, hplan⟩ := build_mem_bodyOf.mp h
    have hn' := hperm.mem_iff.mp hn
    rw [nodeOf_varOf hn, ← identity_plan henv hs hn' (hfault n hn'), ← hplan]
  case child =>
    intro p c hp hc
    rw [defined_bodyOf] at hp hc
    obtain ⟨n, hn, rfl⟩ := List.mem_map.mp hp
    obtain ⟨child, hchild, rfl⟩ := List.mem_map.mp hc
    rw [nodeOf_varOf hn, nodeOf_varOf hchild, addChild_mem_bodyOf]
    constructor
    · rintro ⟨m, -, d, hd, heq, heq'⟩
      obtain rfl := varOf_inj hn heq
      obtain rfl := varOf_inj hchild heq'
      exact parent_of_mem_builtChildren henv.tree (hrooted.aliasOf (hperm.mem_iff.mp hn)) hd
    · intro hparent
      have hmem := mem_builtChildren_of_parent henv.tree hrooted (hperm.mem_iff.mp hchild) hparent
      exact ⟨n, hn, child, hmem, rfl, rfl⟩
  case top =>
    intro v hv
    rw [defined_bodyOf] at hv
    obtain ⟨n, hn, rfl⟩ := List.mem_map.mp hv
    rw [nodeOf_varOf hn, insert_mem_bodyOf]
    constructor
    · rintro ⟨r, hr, heq⟩
      rwa [varOf_inj hn heq]
    · exact fun hr => ⟨n, hr, rfl⟩

/-! ## The references of a factory -/

theorem references_rename (scope : String) (node var : Nat → Nat) (st : Statement) :
    (st.rename var).references scope node = st.references scope (node ∘ var) := by
  cases st <;> rfl

/-- The statements of a node refer to what the node is built with. -/
theorem references_statementsOf (scope : String) (node : Nat → Nat) (n : Nat) :
    (statementsOf env s n).flatMap (Statement.references scope node) =
      (references (plan env s n).1 (plan env s n).2).map fun r => ⟨scope, node n, r.1, r.2⟩ := by
  simp [statementsOf, Statement.references, List.flatMap_map]

/-- A script refers to elements where it builds their nodes. -/
theorem references_forestScript (scope : String) (node : Nat → Nat) (ids : List Nat) :
    (forestScript env s ids).flatMap (Statement.references scope node) =
      (orderOf env.tree s ids).flatMap fun n =>
        (references (plan env s n).1 (plan env s n).2).map fun r => ⟨scope, node n, r.1, r.2⟩ := by
  simp [forestScript, script, orderOf, List.flatMap_assoc, List.flatMap_append,
    references_statementsOf, Statement.references]

/-- The bindings that the factory of a scope refers to, node by node. -/
def referred (env : Environment) (s : Scope) : List Binding :=
  (buildOrder env.tree s).flatMap fun n => roleOrder.flatMap (firstBound env s n)

/-- A factory refers to the first bindings of its nodes. -/
theorem referencesBy_factoryOf (henv : env.WellFormed) (hs : s ∈ env.scopes)
    (hfault : ∀ n ∈ s.nodes, fault? env s n = none) (name : Scope → String) :
    (factoryOf env name s).referencesBy (nodeOf env.tree s) = (referred env s).map referenceOf := by
  have hbody : (factoryOf env name s).referencesBy (nodeOf env.tree s) =
      (buildOrder env.tree s).flatMap fun n =>
        (references (plan env s n).1 (plan env s n).2).map fun r =>
          ⟨s.name, nodeOf env.tree s (varOf env.tree s n), r.1, r.2⟩ := by
    simp only [referencesBy, factoryOf, bodyOf, List.flatMap_map, references_rename]
    exact references_forestScript s.name _ s.commands
  rw [hbody, referred, List.map_flatMap]
  refine List.flatMap_congr fun n hn => ?_
  have hn' := (perm_nodes henv.tree (henv.rooted hs)).mem_iff.mp hn
  rw [references_plan henv hs hn' (hfault n hn'), nodeOf_varOf hn, List.map_map]
  refine List.map_congr_left fun b hb => ?_
  obtain ⟨role, -, hb⟩ := List.mem_flatMap.mp hb
  have hmem : b ∈ bound env s n := List.mem_of_find?_eq_some (Option.mem_toList.mp hb)
  obtain ⟨-, rfl, hscope⟩ := (mem_bound henv hs hn').mp hmem
  simp [referenceTo, referenceOf, hscope]

/-- If no role is bound twice, the first bindings for each role are all bindings. -/
theorem firstBound_perm (henv : env.WellFormed) (honce : env.BoundOnce) (hs : s ∈ env.scopes)
    {n : Nat} (hn : n ∈ s.nodes) :
    (roleOrder.flatMap (firstBound env s n)).Perm (bound env s n) := by
  have hroles : ∀ role, firstBound env s n role = (bound env s n).filter (·.role == role) := by
    intro role
    refine toList_find? ?_
    rw [bound_eq_filter henv hs hn]
    rw [Environment.BoundOnce, List.Nodup, List.pairwise_map] at honce
    refine (honce.filter _).imp_of_mem fun {a b} ha hb hne hrole => hne ?_
    simp only [List.mem_filter, Bool.and_eq_true, beq_iff_eq] at ha hb hrole
    rw [ha.2.1, hb.2.1, hrole.1, hrole.2]
  rw [List.flatMap_congr fun role _ => hroles role]
  refine flatMap_filter_perm Binding.role (by decide) fun b _ => ?_
  cases b.role <;> decide

/-- The factory of a scope refers to all bindings by elements of the scope. -/
theorem referred_perm (henv : env.Sound) (honce : env.BoundOnce) (hs : s ∈ env.scopes) :
    (referred env s).Perm (env.bindings.filter (·.site.scope == s.name)) := by
  have hwf := henv.toWellFormed
  have hrooted := hwf.rooted hs
  have hnodes : (referred env s).Perm (s.nodes.flatMap (bound env s)) :=
    (perm_nodes hwf.tree hrooted).flatMap fun n hn =>
      firstBound_perm hwf honce hs ((perm_nodes hwf.tree hrooted).mem_iff.mp hn)
  refine hnodes.trans ?_
  have hbound : s.nodes.flatMap (bound env s) = s.nodes.flatMap fun n =>
      (env.bindings.filter (·.site.scope == s.name)).filter (·.node == n) :=
    List.flatMap_congr fun n hn => by rw [bound_eq_filter hwf hs hn, List.filter_filter]
  rw [hbound]
  refine flatMap_filter_perm Binding.node hrooted.nodup fun b hb => ?_
  obtain ⟨hb, hscope⟩ := List.mem_filter.mp hb
  exact henv.mem_nodes_of_bound hb hs (eq_of_beq hscope)

/-- A factory has a binding exactly if it refers to one. -/
theorem hasBinding_iff (henv : env.Sound) (honce : env.BoundOnce) (hs : s ∈ env.scopes) :
    hasBinding env s = true ↔ referred env s ≠ [] := by
  have hperm := referred_perm henv honce hs
  rw [hasBinding, List.any_eq_true]
  constructor
  · rintro ⟨b, hb, hscope⟩
    rw [Bool.and_eq_true] at hscope
    exact List.ne_nil_of_mem (hperm.mem_iff.mpr (List.mem_filter.mpr ⟨hb, hscope.1⟩))
  · intro hne
    obtain ⟨b, hb⟩ := List.exists_mem_of_ne_nil _ hne
    obtain ⟨hb, hscope⟩ := List.mem_filter.mp (hperm.mem_iff.mp hb)
    have hn := henv.mem_nodes_of_bound hb hs (eq_of_beq hscope)
    refine ⟨b, hb, ?_⟩
    rw [hscope, Bool.true_and, Scope.contains, List.contains_iff_mem]
    exact hn

/-- The parameter is named `source` exactly if the factory has a reference. -/
theorem parameter_factoryOf (henv : env.Sound) (honce : env.BoundOnce) (hs : s ∈ env.scopes)
    (name : Scope → String) :
    ((factoryOf env name s).parameter = "source" ↔ referred env s ≠ []) ∧
      ((factoryOf env name s).parameter = "_source" ↔ referred env s = []) := by
  have hbinding := hasBinding_iff henv honce hs
  unfold parameter
  change ((if hasBinding env s then "source" else "_source") = "source" ↔ _) ∧
    ((if hasBinding env s then "source" else "_source") = "_source" ↔ _)
  by_cases h : hasBinding env s = true
  · have hne := hbinding.mp h
    simp [h, hne]
  · have hnil : referred env s = [] := by
      by_contra hne
      exact h (hbinding.mpr hne)
    simp [h, hnil]

/-! ## References in the text -/

/-- The text that refers to an element. A method is called on a copy of the pointer to the annotated
type's value, and a field of the value is copied. -/
inductive RefersTo (site : Element) : String → Prop
  | method (h : site.kind = .method) : RefersTo site
      ("\x7b let source = Arc::clone(&source); move |context| source." ++ site.name ++
        "(context) \x7d")
  | field (h : site.kind ≠ .method) : RefersTo site ("source." ++ site.name ++ ".clone()")

/-- The value of an element is written as a reference to it. -/
theorem refersTo_of_writes {site : Element} {text : String}
    (h : (Expr.ofElement site).Writes text) : RefersTo site text := by
  have hprint := h.print_eq
  subst hprint
  cases hkind : site.kind with
  | method =>
    have hvalue : Expr.ofElement site = .method site.name := by simp [Expr.ofElement, hkind]
    rw [hvalue]
    exact .method hkind
  | type | field type =>
    have hvalue : Expr.ofElement site = .field site.name := by simp [Expr.ofElement, hkind]
    rw [hvalue]
    exact .field (by simp [hkind])

/-- The line that gives a node the value of a role. The type stands in the line that begins the
node, behind the variable and the name, and the others are calls. -/
def roleLine (start name text : String) : Role → String
  | .type => start ++ ("Argument::builder(" ++ quote name ++ ", " ++ text ++ ")")
  | .suggestions => "        .suggests(" ++ text ++ ")"
  | .execution => "        .executes(" ++ text ++ ")"
  | .requirement => "        .requires(" ++ text ++ ")"

/-- A value that a node is built with is written in the line of its role. -/
theorem roleLine_mem {v : Nat} {m : Bool} {builder : Builder} {calls : List Call}
    {lines : List String} (h : (Statement.build v m builder calls).Writes lines) {role : Role}
    {value : Expr} (hvalue : (role, value) ∈ builder.values ++ calls.flatMap Call.values) :
    roleLine (letText v m) builder.identity.name value.print role ∈ lines := by
  cases h with
  | @build _ _ _ _ start chain hstart hchain =>
    rcases List.mem_append.mp hvalue with hvalue | hvalue
    · cases hstart with
      | literal name => simp [Builder.values] at hvalue
      | @argument name type text htype =>
        obtain ⟨rfl, rfl⟩ := Prod.mk.inj (List.mem_singleton.mp hvalue)
        have hprint := htype.print_eq
        subst hprint
        exact List.mem_append_left _ (List.mem_append_left _ (.tail _ (.head _)))
    · obtain ⟨call, hcall, hvalue⟩ := List.mem_flatMap.mp hvalue
      have hmem : "        " ++ call.print ∈ chain.map ("        " ++ ·) := by
        rw [← map_print_of_forall₂ hchain, List.map_map]
        exact List.mem_map_of_mem hcall
      refine List.mem_append_left _ (List.mem_append_right _ ?_)
      cases call with
      | otherName word => simp [Call.values] at hvalue
      | suggests value' | executes value' | requires value' =>
        obtain ⟨rfl, rfl⟩ := Prod.mk.inj (List.mem_singleton.mp hvalue)
        exact hmem

/-- A reference of a factory is in a line of the text of its node. -/
theorem exists_line_of_reference {f : Factory} {tree : Tree} {node : Nat → Nat}
    (hidentity : ∀ {v m builder calls}, .build v m builder calls ∈ f.body →
      builder.identity = (tree.node (node v)).identity)
    {r : Reference} (hr : r ∈ f.referencesBy node) :
    r.scope = f.scope ∧ ∃ v m builder calls lines, .build v m builder calls ∈ f.body ∧
      node v = r.node ∧ (Statement.build v m builder calls).Writes lines ∧
      roleLine (letText v m) (tree.node r.node).identity.name r.value.print r.role ∈ lines := by
  obtain ⟨st, hst, hr⟩ := List.mem_flatMap.mp hr
  cases st with
  | build v m builder calls =>
    obtain ⟨⟨role, value⟩, hvalue, rfl⟩ := List.mem_map.mp hr
    obtain ⟨lines, hlines⟩ := (Statement.build v m builder calls).exists_writes
    have hline := roleLine_mem hlines (List.mem_filter.mp hvalue).1
    rw [hidentity hst] at hline
    exact ⟨rfl, v, m, builder, calls, lines, hst, rfl, hlines, hline⟩
  | addChild parent child | insert var => simp [Statement.references] at hr

/-! ## The references of a round -/

/-- The nodes that the variables are for in the factory of the scope with this name. -/
def labelOf (env : Environment) (name : String) : Nat → Nat :=
  nodeOf env.tree ((env.scope? name).getD default)

theorem labelOf_name (henv : env.WellFormed) (hs : s ∈ env.scopes) :
    labelOf env s.name = nodeOf env.tree s := by
  rw [labelOf, henv.scope?_eq_some hs rfl]
  rfl

/-- The factories refer to all bindings. -/
theorem referred_flatMap_perm (henv : env.Sound) (honce : env.BoundOnce) :
    (env.scopes.flatMap (referred env)).Perm env.bindings := by
  have hscopes : (env.scopes.flatMap (referred env)).Perm
      (env.scopes.flatMap fun s => env.bindings.filter (·.site.scope == s.name)) :=
    List.Perm.flatMap_left _ fun s hs => referred_perm henv honce hs
  have hsorted := flatMap_filter_perm (fun b : Binding => b.site.scope) (l := env.bindings)
    henv.scope_names fun b hb => by
      obtain ⟨s, hs, hname, -⟩ := henv.sited hb
      exact List.mem_map.mpr ⟨s, hs, hname⟩
  rw [List.flatMap_map] at hsorted
  exact hscopes.trans hsorted

/-- Each binding is referred to once by the factories: in that of its element's scope, where its
node is built, by the call for its role, and this call is in a line of the text. There are no other
references, and the parameter of a factory is named for whether it has any. -/
structure Refers (env : Environment) (fs : List Factory) (node : String → Nat → Nat) : Prop where
  labels : List.Forall₂ (fun s f => f.scope = s.name ∧ Labels env.tree s f.body (node f.scope))
    env.scopes fs
  scopes : (fs.map (·.scope)).Nodup
  references : (fs.flatMap fun f => f.referencesBy (node f.scope)).Perm
    (env.bindings.map referenceOf)
  once : (env.bindings.map fun b => (b.node, b.role)).Nodup
  written : ∀ b ∈ env.bindings, ∃ f ∈ fs, f.scope = b.site.scope ∧
    ∃ v m builder calls lines text, .build v m builder calls ∈ f.body ∧ node f.scope v = b.node ∧
      (Statement.build v m builder calls).Writes lines ∧ RefersTo b.site text ∧
      roleLine (letText v m) (env.tree.node b.node).identity.name text b.role ∈ lines
  parameter : ∀ f ∈ fs, (f.parameter = "source" ↔ f.referencesBy (node f.scope) ≠ []) ∧
    (f.parameter = "_source" ↔ f.referencesBy (node f.scope) = [])

/-- The closed forms of factories refer to each binding once. -/
theorem refers_factoryOf (henv : env.Sound) (honce : env.BoundOnce)
    (hfault : ∀ s ∈ env.scopes, ∀ n ∈ s.nodes, fault? env s n = none) (name : Scope → String) :
    Refers env (env.scopes.map (factoryOf env name)) (labelOf env) := by
  have hwf := henv.toWellFormed
  have hrefs : ∀ s ∈ env.scopes, (factoryOf env name s).referencesBy (labelOf env s.name) =
      (referred env s).map referenceOf := fun s hs => by
    rw [labelOf_name hwf hs, referencesBy_factoryOf hwf hs (hfault s hs)]
  have hlabels : ∀ s ∈ env.scopes, Labels env.tree s (bodyOf env s) (labelOf env s.name) :=
    fun s hs => by
      rw [labelOf_name hwf hs]
      exact labels_bodyOf hwf hs (hfault s hs)
  have hreferences : ((env.scopes.map (factoryOf env name)).flatMap fun f =>
      f.referencesBy (labelOf env f.scope)).Perm (env.bindings.map referenceOf) := by
    have hall := (referred_flatMap_perm henv honce).map referenceOf
    rw [List.map_flatMap, ← List.flatMap_congr hrefs] at hall
    rwa [List.flatMap_map]
  constructor
  case labels =>
    rw [List.forall₂_map_right_iff, List.forall₂_same]
    exact fun s hs => ⟨rfl, hlabels s hs⟩
  case scopes =>
    rw [List.map_map]
    exact henv.scope_names
  case references => exact hreferences
  case once => exact honce
  case written =>
    intro b hb
    have hr := hreferences.mem_iff.mpr (List.mem_map_of_mem hb)
    obtain ⟨f, hf, hr⟩ := List.mem_flatMap.mp hr
    obtain ⟨s, hs, rfl⟩ := List.mem_map.mp hf
    obtain ⟨hscope, v, m, builder, calls, lines, hst, hnode, hlines, hline⟩ :=
      exists_line_of_reference (hlabels s hs).identity hr
    exact ⟨_, hf, hscope.symm, v, m, builder, calls, lines, _, hst, hnode, hlines,
      refersTo_of_writes (Expr.writes_print _), hline⟩
  case parameter =>
    intro f hf
    obtain ⟨s, hs, rfl⟩ := List.mem_map.mp hf
    have hparameter := parameter_factoryOf henv honce hs name
    rw [show (factoryOf env name s).scope = s.name from rfl, hrefs s hs]
    simpa using hparameter

/-- The output of a round refers to each binding once. -/
theorem compile_references_bindings {settings : Settings} {ds : List Declaration} {out : Output}
    (h : compile settings ds = .ok out) :
    ∃ fs node,
      ofEnvironment settings.generation.suffix (.ofDeclarations settings ds) = .ok fs ∧
        Written settings.generation fs out.source ∧
        Refers (.ofDeclarations settings ds) fs node := by
  have henv := (Environment.assembled_ofDeclarations settings ds).sound
  obtain ⟨hno, hgen, -⟩ := compile_eq_ok h
  obtain ⟨honce, -, hlint⟩ :=
    (Lint.run_hasErrors henv).mp ((allDiagnostics_hasErrors henv).mp hno).2
  have hfault := (Lint.buildable_iff henv).mpr hlint
  obtain ⟨fs, hfs, hsource⟩ := generate_eq_ok.mp hgen
  obtain ⟨-, -, rfl⟩ := (ofEnvironment_eq_ok henv.toWellFormed).mp hfs
  exact ⟨_, _, hfs, written_iff.mpr hsource, refers_factoryOf henv honce hfault _⟩

/-- A command with a bound type, suggestions, execution and requirement. -/
def teleport : List Declaration :=
  let field (name type : String) : Element :=
    { owner := some "Teleport", name, kind := .field type, visibility := .pub }
  let go : Element :=
    { owner := some "Teleport", name := "go", kind := .method, visibility := .pub }
  [⟨go, .command "tp <to>"⟩, ⟨go, .bind "tp <to>"⟩,
    ⟨field "place" "ArgumentType<Place>", .bind "tp <to>"⟩,
    ⟨field "places" "SuggestionProvider<Sender>", .bind "tp <to>"⟩,
    ⟨field "allowed" "Requirement<Sender>", .bind "tp"⟩,
    ⟨{ owner := some "Warp", name := "warp", kind := .method }, .literal ["tp", "home"] ["h"]⟩]

theorem compile_references_teleport :
    ∃ out, compile {} teleport = .ok out ∧
      (Environment.ofDeclarations {} teleport).bindings.length = 4 ∧
      ∃ fs node, ofEnvironment "_commands" (.ofDeclarations {} teleport) = .ok fs ∧
        Written {} fs out.source ∧ Refers (.ofDeclarations {} teleport) fs node := by
  have hok : (compile {} teleport).isOk = true := by decide +kernel
  have hlength : (Environment.ofDeclarations {} teleport).bindings.length = 4 := by decide +kernel
  cases h : compile {} teleport with
  | error ds => simp [h, Except.isOk, Except.toBool] at hok
  | ok out =>
    obtain ⟨fs, node, hfs, hsource, hrefers⟩ := compile_references_bindings h
    exact ⟨out, rfl, hlength, fs, node, hfs, hsource, hrefers⟩

end Factory

end CommandTree
