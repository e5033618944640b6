import CommandTree.Proofs.Factory.Forest
import CommandTree.Proofs.Factory.Names

/-!
# What is emitted for a scope

Emission numbers variables while it goes, and stops at the first node that cannot be built. Here
it is taken apart. The *script* of a branch is its statements with each node as its own variable:
those of one node (`statementsOf`) for each node in the order of building. Emission gives the
script with its variables renamed, unless one of the nodes has a fault; then it gives the first
one (`emitBranch_eq`). The renaming is known from where it takes the nodes of the branch: to the
next numbers, in the order of building.

So the factories of a well-formed environment are known in closed form (`ofEnvironment_eq_ok`).
-/

namespace CommandTree.Factory

/-! ## Results that a fault may replace -/

/-- The result, unless there is a fault. -/
def outcome {α : Type} (fault : Option Fault) (result : α) : Except Fault α :=
  match fault with
  | some f => .error f
  | none => .ok result

theorem outcome_eq_ok {α : Type} {fault : Option Fault} {a b : α} :
    outcome fault a = .ok b ↔ fault = none ∧ a = b := by
  cases fault <;> simp [outcome]

theorem outcome_bind {α β : Type} (fault fault' : Option Fault) {a : α} {b : β}
    {k : α → Except Fault β} (h : k a = outcome fault' b) :
    outcome fault a >>= k = outcome (fault.or fault') b := by
  cases fault with
  | some f => rfl
  | none => exact h

theorem outcome_map {α β : Type} (fault : Option Fault) {a : α} {b : β} {k : α → Except Fault β}
    (h : k a = .ok b) : outcome fault a >>= k = outcome fault b := by
  cases fault with
  | some f => rfl
  | none => exact h

/-- Of several results the first fault counts. -/
theorem mapM_eq_outcome {α β : Type} {f : α → Except Fault β} (fault : α → Option Fault)
    (g : α → β) {as : List α} (h : ∀ a ∈ as, f a = outcome (fault a) (g a)) :
    as.mapM f = outcome (as.findSome? fault) (as.map g) := by
  induction as with
  | nil => rfl
  | cons a as ih =>
    have hfault : (a :: as).findSome? fault = (fault a).or (as.findSome? fault) := by
      rw [List.findSome?_cons]
      cases fault a <;> rfl
    rw [List.mapM_cons, h a (by simp), ih fun b hb => h b (by simp [hb]), hfault]
    exact outcome_bind _ _ (outcome_map _ rfl)

/-! ## Scripts -/

/-- Why a node cannot be built. -/
def fault? (env : Environment) (scope : Scope) (id : Nat) : Option Fault :=
  match buildNode env scope id with
  | .ok _ => none
  | .error f => some f

/-- How a node is built, if it can be. -/
def plan (env : Environment) (scope : Scope) (id : Nat) : Builder × List Call :=
  match buildNode env scope id with
  | .ok built => built
  | .error _ => default

/-- A node is built as planned, unless it is at fault. -/
theorem buildNode_eq (env : Environment) (scope : Scope) (id : Nat) :
    buildNode env scope id = outcome (fault? env scope id) (plan env scope id) := by
  unfold fault? plan
  cases buildNode env scope id <;> rfl

/-- The statement with other variables. -/
def Statement.rename (var : Nat → Nat) : Statement → Statement
  | .build v mutable builder calls => .build (var v) mutable builder calls
  | .addChild parent child => .addChild (var parent) (var child)
  | .insert v => .insert (var v)

/-- The statements that build a node from its children. -/
def statementsOf (env : Environment) (scope : Scope) (id : Nat) : List Statement :=
  .build id (!(builtChildren env.tree scope id).isEmpty) (plan env scope id).1
      (plan env scope id).2 ::
    (builtChildren env.tree scope id).map (.addChild id)

/-- The statements that build the part of the tree below a node. -/
def script (env : Environment) (scope : Scope) (id : Nat) : List Statement :=
  (branch env.tree scope id).order.flatMap (statementsOf env scope)

/-- The statements that build the top-level commands and put them into the result. -/
def forestScript (env : Environment) (scope : Scope) (ids : List Nat) : List Statement :=
  ids.flatMap fun id => script env scope id ++ [.insert id]

variable {env : Environment} {scope : Scope} {var : Nat → Nat}

/-- The script of a node is that of its children, and then its own statements. -/
theorem script_eq (id : Nat) : script env scope id =
    (builtChildren env.tree scope id).flatMap (script env scope) ++ statementsOf env scope id := by
  rw [script, order_branch, List.flatMap_append, orderOf, List.flatMap_assoc,
    List.flatMap_singleton]
  rfl

/-! ## Emission -/

/-- The renaming takes the members of a list to the numbers from `next` on. -/
def Numbers (var : Nat → Nat) (next : Nat) (ids : List Nat) : Prop :=
  ids.map var = List.range' next ids.length

theorem Numbers.of_append {as bs : List Nat} {next : Nat} (h : Numbers var next (as ++ bs)) :
    Numbers var next as ∧ Numbers var (next + as.length) bs := by
  rw [Numbers, List.map_append, List.length_append, ← List.range'_append_1] at h
  exact List.append_inj h (by simp)

/-- The last variable of a branch is that of its top. -/
theorem Numbers.top {id next : Nat} (h : Numbers var next (branch env.tree scope id).order) :
    var id + 1 = next + (branch env.tree scope id).order.length := by
  rw [order_branch] at h ⊢
  have hid := h.of_append.2
  simp only [Numbers, List.map_cons, List.map_nil, List.length_singleton, List.range'_one,
    List.cons.injEq, and_true] at hid
  rw [List.length_append, List.length_singleton, hid]
  omega

/-- Branches are emitted one after the other if each of them is. -/
theorem emitBranches_eq {ids : List Nat}
    (hids : ∀ id ∈ ids, ∀ {next}, Numbers var next (branch env.tree scope id).order →
      emitBranch env scope next (branch env.tree scope id) =
        outcome ((branch env.tree scope id).order.findSome? (fault? env scope))
          ((script env scope id).map (.rename var), var id)) {next : Nat}
    (h : Numbers var next (orderOf env.tree scope ids)) :
    emitBranches env scope next (ids.map (branch env.tree scope)) =
      outcome ((orderOf env.tree scope ids).findSome? (fault? env scope))
        ((ids.flatMap (script env scope)).map (.rename var), ids.map var,
          next + (orderOf env.tree scope ids).length) := by
  induction ids generalizing next with
  | nil => rfl
  | cons id ids ih =>
    rw [orderOf, List.flatMap_cons] at h ⊢
    obtain ⟨hfirst, hrest⟩ := h.of_append
    have hvar := hfirst.top
    rw [← hvar] at hrest
    rw [List.map_cons, emitBranches, hids id (by simp) hfirst, List.findSome?_append,
      List.length_append, ← Nat.add_assoc, ← hvar]
    refine outcome_bind _ _ ?_
    dsimp only
    rw [ih (fun id hid => hids id (by simp [hid])) hrest]
    exact outcome_map _ (by simp [pure, Except.pure, orderOf])

/-- What is emitted for a branch whose nodes are to have the next variables. -/
theorem emitBranch_eq {id next : Nat} (h : Numbers var next (branch env.tree scope id).order) :
    emitBranch env scope next (branch env.tree scope id) =
      outcome ((branch env.tree scope id).order.findSome? (fault? env scope))
        ((script env scope id).map (.rename var), var id) := by
  induction id using branch.induct env.tree scope generalizing next with
  | case1 id ih =>
    have hvar : var id =
        next + (orderOf env.tree scope (builtChildren env.tree scope id)).length := by
      have := h.top
      rw [order_branch, List.length_append, List.length_singleton] at this
      omega
    rw [order_branch] at h ⊢
    rw [branch_eq, emitBranch, emitBranches_eq ih h.of_append.1, List.findSome?_append, ← hvar]
    refine outcome_bind _ _ ?_
    dsimp only
    rw [buildNode_eq, List.findSome?_singleton, script_eq]
    exact outcome_map _ (by simp [statementsOf, Statement.rename, pure, Except.pure])

/-- What is emitted for top-level commands that the tree has. -/
theorem emitCommands_eq {ids : List Nat} {next : Nat}
    (hids : ∀ id ∈ ids, env.tree.contains id = true)
    (h : Numbers var next (orderOf env.tree scope ids)) :
    emitCommands env scope next ids =
      outcome ((orderOf env.tree scope ids).findSome? (fault? env scope))
        ((forestScript env scope ids).map (.rename var)) := by
  induction ids generalizing next with
  | nil => rfl
  | cons id ids ih =>
    rw [orderOf, List.flatMap_cons] at h ⊢
    obtain ⟨hfirst, hrest⟩ := h.of_append
    rw [← hfirst.top] at hrest
    rw [emitCommands, emitCommand, if_pos (hids id (by simp)), emitBranch_eq hfirst,
      List.findSome?_append]
    refine outcome_bind _ _ ?_
    dsimp only
    rw [ih (fun r hr => hids r (by simp [hr])) hrest]
    exact outcome_map _ (by simp [forestScript, Statement.rename, pure, Except.pure])

/-! ## Factories -/

theorem numbers_idxOf {l : List Nat} (h : l.Nodup) : Numbers l.idxOf 0 l := by
  refine List.ext_getElem (by simp) fun i hi _ => ?_
  rw [List.getElem_map, h.idxOf_getElem, List.getElem_range']
  omega

/-- The variable of a node: its place in the order of building. -/
def varOf (tree : Tree) (scope : Scope) : Nat → Nat :=
  (buildOrder tree scope).idxOf

/-- The body of a scope's factory, if its nodes can be built. -/
def bodyOf (env : Environment) (scope : Scope) : List Statement :=
  (forestScript env scope scope.commands).map (.rename (varOf env.tree scope))

/-- The factory of a scope, if its nodes can be built. -/
def factoryOf (env : Environment) (name : Scope → String) (scope : Scope) : Factory where
  name := name scope
  scope := scope.name
  usesSource := hasBinding env scope
  body := bodyOf env scope

/-- The factory of a scope is its closed form, or the first fault in the order of building. -/
theorem ofScope_eq (henv : env.WellFormed) (hs : scope ∈ env.scopes) (name : Scope → String) :
    ofScope env scope (name scope) =
      outcome ((buildOrder env.tree scope).findSome? (fault? env scope))
        (factoryOf env name scope) := by
  have hrooted := henv.rooted hs
  have hmem : ∀ r ∈ scope.commands, env.tree.contains r = true := fun r hr =>
    decide_eq_true (henv.node_lt hs ((mem_commands hrooted).mp hr).1).2
  unfold ofScope
  rw [emitCommands_eq hmem (numbers_idxOf (nodup_buildOrder henv.tree hrooted))]
  exact outcome_map _ rfl

/-- The first fault of a node, scope by scope. -/
def firstFault (env : Environment) : Option Fault :=
  env.scopes.findSome? fun s => (buildOrder env.tree s).findSome? (fault? env s)

/-- There is no fault if no node of a scope has one. -/
theorem firstFault_eq_none (henv : env.WellFormed) :
    firstFault env = none ↔ ∀ s ∈ env.scopes, ∀ n ∈ s.nodes, fault? env s n = none := by
  rw [firstFault, List.findSome?_eq_none_iff]
  refine forall₂_congr fun s hs => ?_
  rw [List.findSome?_eq_none_iff]
  exact forall_congr' fun n => by rw [(perm_nodes henv.tree (henv.rooted hs)).mem_iff]

/-- The first fault is the fault of a node in a scope. -/
theorem exists_of_firstFault (henv : env.WellFormed) {f : Fault} (h : firstFault env = some f) :
    ∃ s ∈ env.scopes, ∃ n ∈ s.nodes, fault? env s n = some f := by
  obtain ⟨s, hs, h⟩ := List.exists_of_findSome?_eq_some h
  obtain ⟨n, hn, h⟩ := List.exists_of_findSome?_eq_some h
  exact ⟨s, hs, n, (perm_nodes henv.tree (henv.rooted hs)).mem_iff.mp hn, h⟩

/-- If the names are distinct, only a fault of a node is in the way of the factories. -/
theorem ofEnvironment_eq (henv : env.WellFormed) {suffix : String}
    (hnames : (env.scopes.map (chosenName suffix env.scopes)).Nodup) :
    ofEnvironment suffix env =
      outcome (firstFault env) (env.scopes.map (factoryOf env (chosenName suffix env.scopes))) := by
  have hzip : env.scopes.zip (env.scopes.map (chosenName suffix env.scopes)) =
      env.scopes.map fun s => (s, chosenName suffix env.scopes s) :=
    (List.zip_of_prod (by simp [Function.comp_def]) (by simp [Function.comp_def])).symm
  unfold ofEnvironment
  rw [names_eq_ok.mpr ⟨rfl, hnames⟩]
  change (env.scopes.zip (env.scopes.map _)).mapM _ = _
  rw [hzip, mapM_eq_outcome (fun p => (buildOrder env.tree p.1).findSome? (fault? env p.1))
    (fun p => factoryOf env (chosenName suffix env.scopes) p.1), List.findSome?_map, List.map_map]
  · rfl
  · intro p hp
    obtain ⟨s, hs, rfl⟩ := List.mem_map.mp hp
    exact ofScope_eq henv hs (chosenName suffix env.scopes)

/-- The factories of a well-formed environment. -/
theorem ofEnvironment_eq_ok (henv : env.WellFormed) {suffix : String} {fs : List Factory} :
    ofEnvironment suffix env = .ok fs ↔
      (env.scopes.map (chosenName suffix env.scopes)).Nodup ∧
      (∀ s ∈ env.scopes, ∀ n ∈ s.nodes, fault? env s n = none) ∧
      fs = env.scopes.map (factoryOf env (chosenName suffix env.scopes)) := by
  constructor
  · intro h
    have hnames : (env.scopes.map (chosenName suffix env.scopes)).Nodup := by
      cases hn : names suffix env.scopes with
      | error f => simp [ofEnvironment, hn, bind, Except.bind] at h
      | ok ns => exact (names_eq_ok.mp hn).2
    rw [ofEnvironment_eq henv hnames, outcome_eq_ok, firstFault_eq_none henv] at h
    exact ⟨hnames, h.1, h.2.symm⟩
  · rintro ⟨hnames, hnone, rfl⟩
    rw [ofEnvironment_eq henv hnames, outcome_eq_ok]
    exact ⟨(firstFault_eq_none henv).mpr hnone, rfl⟩

end CommandTree.Factory
