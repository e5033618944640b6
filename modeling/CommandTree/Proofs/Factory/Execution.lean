import CommandTree.Proofs.Factory.Body
import CommandTree.Proofs.Factory.Building

/-!
# Running a factory

A factory is run on a store of variables. Building a node sets a variable that was not set;
adding a child and inserting a command move a node out of its variable, and only a variable that
may change takes a child. A statement that uses a variable in another way has no result.

`run_script` is the main step: from a store in which the variables of a branch are not set, the
script of the branch leaves its top in its variable, with the nodes below it hung under it, and
touches no other variable. So the factory of a scope whose nodes can be built runs to the end, and
its result is the forest of the scope (`rebuilds_factoryOf`). The statements that are run are those
whose lines are in the output (`Written`).
-/

namespace CommandTree.Factory

/-! ## Stores -/

/-- A node that was built, with its children. -/
inductive Built
  | node (builder : Builder) (calls : List Call) (children : List Built)

/-- The name of a node that was built. -/
def Built.name : Built → String
  | .node builder _ _ => builder.identity.name

/-- What a variable is. -/
inductive Slot
  | unset
  | holds (mutable : Bool) (value : Built)
  | moved

/-- The variables of a running factory, and the result so far by the names of its commands. -/
structure Store where
  vars : Nat → Slot
  result : List (String × Built)

namespace Store

/-- No variable is set. -/
def empty : Store :=
  ⟨fun _ => .unset, []⟩

/-- Changes a variable. -/
def set (σ : Store) (v : Nat) (slot : Slot) : Store :=
  { σ with vars := fun w => if w = v then slot else σ.vars w }

/-- Puts a command into the result, in place of one with the same name. -/
def put (σ : Store) (value : Built) : Store :=
  { σ with result := σ.result.filter (·.1 != value.name) ++ [(value.name, value)] }

@[simp] theorem set_vars_self (σ : Store) (v : Nat) (slot : Slot) :
    (σ.set v slot).vars v = slot :=
  if_pos rfl

theorem set_vars_of_ne (σ : Store) {v w : Nat} (slot : Slot) (h : w ≠ v) :
    (σ.set v slot).vars w = σ.vars w :=
  if_neg h

@[simp] theorem set_result (σ : Store) (v : Nat) (slot : Slot) :
    (σ.set v slot).result = σ.result :=
  rfl

@[simp] theorem put_vars (σ : Store) (value : Built) : (σ.put value).vars = σ.vars :=
  rfl

end Store

/-- Runs a statement. -/
def Statement.run (σ : Store) : Statement → Option Store
  | .build v mutable builder calls =>
    match σ.vars v with
    | .unset => some (σ.set v (.holds mutable (.node builder calls [])))
    | _ => none
  | .addChild p c =>
    match σ.vars p, σ.vars c with
    | .holds true (.node builder calls children), .holds _ child =>
      if p = c then none
      else some ((σ.set c .moved).set p (.holds true (.node builder calls (children ++ [child]))))
    | _, _ => none
  | .insert v =>
    match σ.vars v with
    | .holds _ value => some ((σ.set v .moved).put value)
    | _ => none

/-- Runs statements one after the other. -/
def run (σ : Store) (body : List Statement) : Option Store :=
  body.foldlM Statement.run σ

theorem run_append {σ σ' : Store} {as bs : List Statement} (h : run σ as = some σ') :
    run σ (as ++ bs) = run σ' bs := by
  unfold run at h ⊢
  rw [List.foldlM_append, h]
  rfl

theorem run_cons {σ σ' : Store} {st : Statement} {body : List Statement}
    (h : st.run σ = some σ') : run σ (st :: body) = run σ' body := by
  unfold run
  rw [List.foldlM_cons, h]
  rfl

namespace Branch

mutual

/-- The node that a branch is built to. -/
def built (how : Nat → Builder × List Call) : Branch → Built
  | .node id children => .node (how id).1 (how id).2 (builts how children)

/-- The nodes that several branches are built to. -/
def builts (how : Nat → Builder × List Call) : List Branch → List Built
  | [] => []
  | first :: rest => built how first :: builts how rest

end

theorem builts_eq_map (how : Nat → Builder × List Call) (bs : List Branch) :
    builts how bs = bs.map (built how) := by
  induction bs with
  | nil => rfl
  | cons first rest ih => rw [builts, ih, List.map_cons]

end Branch

/-- The node that the part of the tree below a node is built to. -/
def builtOf (env : Environment) (s : Scope) (id : Nat) : Built :=
  (branch env.tree s id).built (plan env s)

variable {env : Environment} {s : Scope} {var : Nat → Nat}

/-- A node is built as planned, with its children below it. -/
theorem builtOf_eq (id : Nat) : builtOf env s id =
    .node (plan env s id).1 (plan env s id).2
      ((builtChildren env.tree s id).map (builtOf env s)) := by
  rw [builtOf, branch_eq, Branch.built, Branch.builts_eq_map, List.map_map]
  rfl

/-! ## Running scripts -/

/-- The store after the branches below `ids` are built: each is in the variable of its top, the
variables of the other nodes are moved, and nothing else is different. -/
structure Grown (env : Environment) (s : Scope) (var : Nat → Nat) (ids : List Nat)
    (σ σ' : Store) : Prop where
  top : ∀ id ∈ ids, σ'.vars (var id) =
    .holds (!(builtChildren env.tree s id).isEmpty) (builtOf env s id)
  inner : ∀ n ∈ orderOf env.tree s ids, n ∉ ids → σ'.vars (var n) = .moved
  other : ∀ v, v ∉ (orderOf env.tree s ids).map var → σ'.vars v = σ.vars v
  result : σ'.result = σ.result

/-- The variables of the branches below `ids` are different ones, and not set. -/
structure Free (env : Environment) (s : Scope) (var : Nat → Nat) (ids : List Nat)
    (σ : Store) : Prop where
  nodup : ((orderOf env.tree s ids).map var).Nodup
  unset : ∀ v ∈ (orderOf env.tree s ids).map var, σ.vars v = .unset

section

variable {as bs : List Nat} {σ σ' σ'' : Store}

theorem Free.disjoint (h : Free env s var (as ++ bs) σ) :
    ((orderOf env.tree s as).map var).Disjoint ((orderOf env.tree s bs).map var) := by
  have hnodup := h.nodup
  rw [orderOf_append, List.map_append] at hnodup
  exact List.disjoint_of_nodup_append hnodup

theorem Free.left (h : Free env s var (as ++ bs) σ) : Free env s var as σ := by
  obtain ⟨hnodup, hunset⟩ := h
  rw [orderOf_append, List.map_append] at hnodup hunset
  exact ⟨hnodup.of_append_left, fun v hv => hunset v (List.mem_append_left _ hv)⟩

theorem Free.children {id : Nat} (h : Free env s var [id] σ) :
    Free env s var (builtChildren env.tree s id) σ := by
  obtain ⟨hnodup, hunset⟩ := h
  rw [orderOf_singleton, order_branch, List.map_append] at hnodup hunset
  exact ⟨hnodup.of_append_left, fun v hv => hunset v (List.mem_append_left _ hv)⟩

/-- What is not built yet stays free. -/
theorem Free.right (h : Free env s var (as ++ bs) σ)
    (hother : ∀ v, v ∉ (orderOf env.tree s as).map var → σ'.vars v = σ.vars v) :
    Free env s var bs σ' := by
  have hdisjoint := h.disjoint
  obtain ⟨hnodup, hunset⟩ := h
  rw [orderOf_append, List.map_append] at hnodup hunset
  refine ⟨hnodup.of_append_right, fun v hv => ?_⟩
  rw [hother v fun hv' => hdisjoint hv' hv]
  exact hunset v (List.mem_append_right _ hv)

/-- Growing some roots and then others grows all of them: the second part leaves the variables of
the first as they are. -/
theorem Grown.append (hfree : Free env s var (as ++ bs) σ) (h : Grown env s var as σ σ')
    (h' : Grown env s var bs σ' σ'') : Grown env s var (as ++ bs) σ σ'' := by
  have hkept : ∀ n ∈ orderOf env.tree s as, σ''.vars (var n) = σ'.vars (var n) := fun n hn =>
    h'.other _ fun hv => hfree.disjoint (List.mem_map_of_mem hn) hv
  constructor
  · intro id hid
    rcases List.mem_append.mp hid with hid | hid
    · rw [hkept id ((sublist_orderOf _ _ as).subset hid), h.top id hid]
    · exact h'.top id hid
  · intro n hn hnot
    rw [orderOf_append, List.mem_append] at hn
    rw [List.mem_append, not_or] at hnot
    rcases hn with hn | hn
    · rw [hkept n hn, h.inner n hn hnot.1]
    · exact h'.inner n hn hnot.2
  · intro v hv
    rw [orderOf_append, List.map_append, List.mem_append, not_or] at hv
    rw [h'.other v hv.2, h.other v hv.1]
  · rw [h'.result, h.result]

end

/-- The scripts of several branches, if each of them runs. -/
theorem run_scripts {ids : List Nat}
    (hids : ∀ id ∈ ids, ∀ {σ}, Free env s var [id] σ →
      ∃ σ', run σ ((script env s id).map (.rename var)) = some σ' ∧ Grown env s var [id] σ σ')
    {σ : Store} (hfree : Free env s var ids σ) :
    ∃ σ', run σ ((ids.flatMap (script env s)).map (.rename var)) = some σ' ∧
      Grown env s var ids σ σ' := by
  induction ids generalizing σ with
  | nil => exact ⟨σ, rfl, by constructor <;> simp [orderOf]⟩
  | cons id ids ih =>
    rw [← List.singleton_append] at hfree ⊢
    obtain ⟨σ₁, hrun₁, hgrown₁⟩ := hids id (by simp) hfree.left
    obtain ⟨σ₂, hrun₂, hgrown₂⟩ :=
      ih (fun id hid => hids id (by simp [hid])) (hfree.right hgrown₁.other)
    refine ⟨σ₂, ?_, hgrown₁.append hfree hgrown₂⟩
    rw [List.flatMap_append, List.map_append, List.flatMap_singleton, run_append hrun₁, hrun₂]

/-- Children that variables hold are hung under a node one after the other. -/
theorem run_addChildren {σ : Store} {p : Nat} {mutable : Bool} {builder : Builder}
    {calls : List Call} {done : List Built} (value : Nat → Built) (cs : List Nat)
    (hp : σ.vars p = .holds mutable (.node builder calls done))
    (hmutable : cs ≠ [] → mutable = true) (hcs : (p :: cs.map var).Nodup)
    (hholds : ∀ c ∈ cs, ∃ m, σ.vars (var c) = .holds m (value c)) :
    ∃ σ', run σ (cs.map fun c => .addChild p (var c)) = some σ' ∧
      σ'.vars p = .holds mutable (.node builder calls (done ++ cs.map value)) ∧
      (∀ c ∈ cs, σ'.vars (var c) = .moved) ∧
      (∀ v, v ∉ p :: cs.map var → σ'.vars v = σ.vars v) ∧ σ'.result = σ.result := by
  induction cs generalizing σ done with
  | nil => exact ⟨σ, rfl, by simpa using hp, by simp, by simp, rfl⟩
  | cons c cs ih =>
    obtain rfl := hmutable (by simp)
    obtain ⟨m, hm⟩ := hholds c (by simp)
    simp only [List.map_cons, List.nodup_cons, List.mem_cons, not_or] at hcs
    obtain ⟨⟨hpc, hp'⟩, hc, hnodup⟩ := hcs
    have hstep : (Statement.addChild p (var c)).run σ = some ((σ.set (var c) .moved).set p
        (.holds true (.node builder calls (done ++ [value c])))) := by
      simp only [Statement.run, hp, hm, if_neg hpc]
    have hset : ∀ w, w ≠ p → w ≠ var c → ((σ.set (var c) .moved).set p
        (.holds true (.node builder calls (done ++ [value c])))).vars w = σ.vars w := by
      intro w hwp hwc
      rw [Store.set_vars_of_ne _ _ hwp, Store.set_vars_of_ne _ _ hwc]
    obtain ⟨σ', hrun, hholds', hmoved, hother, hresult⟩ := ih (Store.set_vars_self _ p _)
      (fun _ => rfl) (List.nodup_cons.mpr ⟨hp', hnodup⟩) (fun d hd => by
        have hd' : var d ∈ cs.map var := List.mem_map_of_mem hd
        rw [hset (var d) (fun h => hp' (h ▸ hd')) (fun h => hc (h ▸ hd'))]
        exact hholds d (by simp [hd]))
    refine ⟨σ', ?_, ?_, ?_, ?_, hresult⟩
    · rw [List.map_cons, run_cons hstep, hrun]
    · rw [hholds', List.map_cons, List.append_assoc, List.singleton_append]
    · intro d hd
      rcases List.mem_cons.mp hd with rfl | hd
      · rw [hother (var d) (by simp [Ne.symm hpc, hc]), Store.set_vars_of_ne _ _ (Ne.symm hpc),
          Store.set_vars_self]
      · exact hmoved d hd
    · intro w hw
      simp only [List.map_cons, List.mem_cons, not_or] at hw
      rw [hother w (by simp [hw.1, hw.2.2]), hset w hw.1 hw.2.1]

/-- A node is built when its children are, and takes them. -/
theorem run_statementsOf {id : Nat} {σ σ₁ : Store} (hfree : Free env s var [id] σ)
    (hgrown : Grown env s var (builtChildren env.tree s id) σ σ₁) :
    ∃ σ₂, run σ₁ ((statementsOf env s id).map (.rename var)) = some σ₂ ∧
      Grown env s var [id] σ σ₂ := by
  obtain ⟨hnodup, hunset⟩ := hfree
  rw [orderOf_singleton, order_branch, List.map_append] at hnodup hunset
  have hid : var id ∉ (orderOf env.tree s (builtChildren env.tree s id)).map var := fun h =>
    List.disjoint_of_nodup_append hnodup h (by simp)
  have hsub := (sublist_orderOf env.tree s (builtChildren env.tree s id)).map var
  have hbuild : ((Statement.build id (!(builtChildren env.tree s id).isEmpty)
      (plan env s id).1 (plan env s id).2).rename var).run σ₁ =
      some (σ₁.set (var id) (.holds (!(builtChildren env.tree s id).isEmpty)
        (.node (plan env s id).1 (plan env s id).2 []))) := by
    have : σ₁.vars (var id) = .unset := by
      rw [hgrown.other _ hid]
      exact hunset _ (by simp)
    simp only [Statement.rename, Statement.run, this]
  have hholds : ∀ c ∈ builtChildren env.tree s id, ∃ m,
      (σ₁.set (var id) (.holds (!(builtChildren env.tree s id).isEmpty)
        (.node (plan env s id).1 (plan env s id).2 []))).vars (var c) =
        .holds m (builtOf env s c) := by
    intro c hc
    have hc' := hsub.subset (List.mem_map_of_mem hc)
    have hne : var c ≠ var id := fun h => hid (h ▸ hc')
    exact ⟨_, (Store.set_vars_of_ne _ _ hne).trans (hgrown.top c hc)⟩
  obtain ⟨σ₂, hrun, htop, hmoved, hother, hresult⟩ := run_addChildren (builtOf env s)
    (builtChildren env.tree s id) (Store.set_vars_self σ₁ (var id) _) (by simp)
    (List.nodup_cons.mpr ⟨fun h => hid (hsub.subset h), hnodup.of_append_left.sublist hsub⟩)
    hholds
  refine ⟨σ₂, ?_, ?_, ?_, ?_, ?_⟩
  · rw [statementsOf, List.map_cons, run_cons hbuild, List.map_map]
    exact hrun
  · simpa [builtOf_eq id] using htop
  · intro n hn hnot
    rw [orderOf_singleton, order_branch, List.mem_append] at hn
    replace hn := hn.resolve_right hnot
    have hne : var n ≠ var id := fun h => hid (h ▸ List.mem_map_of_mem hn)
    by_cases hc : n ∈ builtChildren env.tree s id
    · exact hmoved n hc
    · have hn' : var n ∉ (builtChildren env.tree s id).map var := by
        intro h
        obtain ⟨c, hc', heq⟩ := List.mem_map.mp h
        have hc'' := (sublist_orderOf env.tree s _).subset hc'
        exact hc (List.inj_on_of_nodup_map hnodup.of_append_left hc'' hn heq ▸ hc')
      rw [hother _ (List.not_mem_cons_of_ne_of_not_mem hne hn'), Store.set_vars_of_ne _ _ hne]
      exact hgrown.inner n hn hc
  · intro v hv
    rw [orderOf_singleton, order_branch, List.map_append, List.mem_append, not_or] at hv
    have hne : v ≠ var id := by simpa using hv.2
    rw [hother v (List.not_mem_cons_of_ne_of_not_mem hne fun h => hv.1 (hsub.subset h)),
      Store.set_vars_of_ne _ _ hne, hgrown.other v hv.1]
  · rw [hresult, Store.set_result, hgrown.result]

/-- The script of a branch leaves the branch in the variable of its top. -/
theorem run_script (id : Nat) : ∀ {σ}, Free env s var [id] σ →
    ∃ σ', run σ ((script env s id).map (.rename var)) = some σ' ∧
      Grown env s var [id] σ σ' := by
  induction id using branch.induct env.tree s with
  | case1 id ih =>
    intro σ hfree
    obtain ⟨σ₁, hrun₁, hgrown⟩ := run_scripts ih hfree.children
    obtain ⟨σ₂, hrun₂, hgrown₂⟩ := run_statementsOf hfree hgrown
    exact ⟨σ₂, by rw [script_eq, List.map_append, run_append hrun₁, hrun₂], hgrown₂⟩

/-- The script of a forest moves its branches into the result. -/
theorem run_forestScript {ids : List Nat} {σ : Store} (hfree : Free env s var ids σ)
    (hnames : (σ.result.map (·.1) ++ ids.map fun id => (builtOf env s id).name).Nodup) :
    ∃ σ', run σ ((forestScript env s ids).map (.rename var)) = some σ' ∧
      σ'.result = σ.result ++ ids.map (fun id => ((builtOf env s id).name, builtOf env s id)) ∧
      (∀ n ∈ orderOf env.tree s ids, σ'.vars (var n) = .moved) ∧
      ∀ v, v ∉ (orderOf env.tree s ids).map var → σ'.vars v = σ.vars v := by
  induction ids generalizing σ with
  | nil => exact ⟨σ, rfl, by simp, by simp [orderOf], by simp⟩
  | cons id ids ih =>
    rw [← List.singleton_append] at hfree
    obtain ⟨σ₁, hrun₁, hgrown⟩ := run_script id hfree.left
    have htop := hgrown.top id (by simp)
    have hinsert : (Statement.insert (var id)).run σ₁ =
        some ((σ₁.set (var id) .moved).put (builtOf env s id)) := by
      simp only [Statement.run, htop]
    have hother : ∀ v, v ∉ (orderOf env.tree s [id]).map var →
        ((σ₁.set (var id) .moved).put (builtOf env s id)).vars v = σ.vars v := by
      intro v hv
      have hne : v ≠ var id := fun h => hv (h ▸ List.mem_map_of_mem
        ((sublist_orderOf env.tree s [id]).subset (by simp)))
      rw [Store.put_vars, Store.set_vars_of_ne _ _ hne, hgrown.other v hv]
    have hresult : ((σ₁.set (var id) .moved).put (builtOf env s id)).result =
        σ.result ++ [((builtOf env s id).name, builtOf env s id)] := by
      have hnew : ∀ p ∈ σ.result, p.1 ≠ (builtOf env s id).name := fun p hp h =>
        List.disjoint_of_nodup_append hnames (List.mem_map_of_mem hp) (by simp [h])
      have hkept : σ.result.filter (·.1 != (builtOf env s id).name) = σ.result :=
        List.filter_eq_self.mpr fun p hp => by simpa using hnew p hp
      rw [Store.put, Store.set_result, hgrown.result, hkept]
    obtain ⟨σ₂, hrun₂, hresult₂, hmoved₂, hother₂⟩ := ih (hfree.right hother) (by
      rw [hresult]
      simpa using hnames)
    refine ⟨σ₂, ?_, ?_, ?_, ?_⟩
    · rw [forestScript, List.flatMap_cons, List.append_assoc, List.map_append, run_append hrun₁,
        List.singleton_append, List.map_cons]
      exact (run_cons hinsert).trans hrun₂
    · rw [hresult₂, hresult]
      simp
    · intro n hn
      rw [← List.singleton_append, orderOf_append, List.mem_append] at hn
      rcases hn with hn | hn
      · rw [hother₂ _ fun h => hfree.disjoint (List.mem_map_of_mem hn) h, Store.put_vars]
        by_cases heq : var n = var id
        · rw [heq, Store.set_vars_self]
        · rw [Store.set_vars_of_ne _ _ heq]
          exact hgrown.inner n hn fun h => heq (congrArg var (List.mem_singleton.mp h))
      · exact hmoved₂ n hn
    · intro v hv
      rw [← List.singleton_append, orderOf_append, List.map_append, List.mem_append, not_or] at hv
      rw [hother₂ v hv.2, hother v hv.1]

/-! ## Generated factories -/

/-- The nodes of a scope as a forest that was built: the top-level commands in their order, each
node once, and each with its own kind, name and aliases. -/
structure Represents (tree : Tree) (s : Scope) (forest : List Branch)
    (how : Nat → Builder × List Call) : Prop where
  roots : forest.map Branch.id = s.commands
  nodes : (Branch.orders forest).Perm s.nodes
  nodup : (Branch.orders forest).Nodup
  follows : ∀ b ∈ forest, Follows tree s b
  identity : ∀ n ∈ s.nodes, (how n).1.identity = (tree.node n).identity
  aliases : ∀ n ∈ s.nodes, (how n).2.filterMap Call.word? = (tree.node n).aliases

/-- The factory runs to the end, with each variable defined and moved once and each one that takes
children declared so, and its result is the forest of the scope. -/
structure Rebuilds (tree : Tree) (s : Scope) (f : Factory) : Prop where
  scope : f.scope = s.name
  defined : (f.body.filterMap Statement.defined?).Nodup
  moved : (f.body.filterMap Statement.moved?).Perm (f.body.filterMap Statement.defined?)
  mutable : ∀ {v m builder calls}, .build v m builder calls ∈ f.body →
    (m = true ↔ ∃ c, .addChild v c ∈ f.body)
  runs : ∃ σ forest how, run .empty f.body = some σ ∧
    (∀ v m value, σ.vars v ≠ .holds m value) ∧
    σ.result = forest.map (fun b => ((tree.node b.id).identity.name, b.built how)) ∧
    Represents tree s forest how

/-- The top-level commands of a scope differ in their names. -/
theorem nodup_names (henv : env.WellFormed) (hs : s ∈ env.scopes) :
    (s.commands.map fun id => (env.tree.node id).identity.name).Nodup := by
  have hrooted := henv.rooted hs
  have hcommands : s.commands.Nodup := by
    rw [hrooted.commands]
    exact hrooted.nodup.filter _
  refine hcommands.map_on fun a ha b hb heq => ?_
  have hlisted : ∀ {id}, id ∈ s.commands →
      ((env.tree.node id).identity, id) ∈ (env.tree.node 0).children := fun h =>
    henv.tree.listed ((mem_commands hrooted).mp h).2
  exact congrArg Prod.snd
    (List.inj_on_of_nodup_map (henv.tree.names 0) (hlisted ha) (hlisted hb) heq)

/-- The branches of a scope represent it. -/
theorem represents_branches (henv : env.WellFormed) (hs : s ∈ env.scopes)
    (hfault : ∀ n ∈ s.nodes, fault? env s n = none) :
    Represents env.tree s (s.commands.map (branch env.tree s)) (plan env s) := by
  have hrooted := henv.rooted hs
  have horders : Branch.orders (s.commands.map (branch env.tree s)) = buildOrder env.tree s := by
    rw [Branch.orders_eq_flatMap, List.flatMap_map]
    rfl
  constructor
  case roots => simp [Function.comp_def]
  case nodes =>
    rw [horders]
    exact perm_nodes henv.tree hrooted
  case nodup =>
    rw [horders]
    exact nodup_buildOrder henv.tree hrooted
  case follows =>
    intro b hb
    obtain ⟨r, hr, rfl⟩ := List.mem_map.mp hb
    exact follows_branch henv.tree hrooted (hrooted.aliasOf ((mem_commands hrooted).mp hr).1)
  case identity => exact fun n hn => identity_plan henv hs hn (hfault n hn)
  case aliases => exact fun n hn => aliases_plan henv hs hn (hfault n hn)

/-- The closed form of a factory rebuilds its scope. -/
theorem rebuilds_factoryOf (henv : env.WellFormed) (hs : s ∈ env.scopes)
    (hfault : ∀ n ∈ s.nodes, fault? env s n = none) (name : Scope → String) :
    Rebuilds env.tree s (factoryOf env name s) := by
  have hrooted := henv.rooted hs
  have hname : ∀ id ∈ s.commands,
      (builtOf env s id).name = (env.tree.node id).identity.name := by
    intro id hid
    have hn := ((mem_commands hrooted).mp hid).1
    rw [builtOf_eq, Built.name, identity_plan henv hs hn (hfault id hn)]
  have hfree : Free env s (varOf env.tree s) s.commands .empty := by
    refine ⟨?_, fun _ _ => rfl⟩
    have hdefined := nodup_defined_bodyOf henv hs
    rwa [defined_bodyOf] at hdefined
  obtain ⟨σ, hrun, hresult, hmoved, hother⟩ := run_forestScript hfree (by
    rw [List.map_congr_left hname]
    exact nodup_names henv hs)
  refine ⟨rfl, nodup_defined_bodyOf henv hs, moved_bodyOf, mutable_iff, σ, _, _, hrun, ?_, ?_,
    represents_branches henv hs hfault⟩
  · intro v m value hholds
    by_cases hv : v ∈ (orderOf env.tree s s.commands).map (varOf env.tree s)
    · obtain ⟨n, hn, rfl⟩ := List.mem_map.mp hv
      rw [hmoved n hn] at hholds
      cases hholds
    · rw [hother v hv] at hholds
      cases hholds
  · rw [hresult, List.map_map]
    refine List.map_congr_left fun id hid => ?_
    rw [hname id hid, Function.comp_apply, id_branch]
    rfl

/-- The source that is generated for an environment that was assembled is what is written for
factories that rebuild its scopes. -/
theorem generate_rebuilds_scopes {env : Environment} (henv : env.Assembled)
    {settings : GenerationSettings} {text : String} (h : env.generate settings = .ok text) :
    ∃ fs, ofEnvironment settings.suffix env = .ok fs ∧ Written settings fs text ∧
      List.Forall₂ (Rebuilds env.tree) env.scopes fs := by
  obtain ⟨fs, hfs, htext⟩ := generate_eq_ok.mp h
  refine ⟨fs, hfs, written_iff.mpr htext, ?_⟩
  obtain ⟨-, hfault, rfl⟩ := (ofEnvironment_eq_ok henv.sound.toWellFormed).mp hfs
  rw [List.forall₂_map_right_iff, List.forall₂_same]
  exact fun s hs => rebuilds_factoryOf henv.sound.toWellFormed hs (hfault s hs) _

/-- Two types declare commands below a literal that has another name. -/
def greeting : Environment :=
  let greet (name : String) : Element := { owner := some "Greet", name, kind := .method }
  let wave : Element := { owner := some "Wave", name := "wave", kind := .method }
  .ofDeclarations {} [⟨greet "hello", .literal ["greet"] ["hi"]⟩,
    ⟨greet "name", .argument ["hi", "<name>"] "Word" none⟩,
    ⟨wave, .command "hi wave"⟩, ⟨wave, .bind "greet wave"⟩]

theorem generate_rebuilds_greeting :
    ∃ text fs, greeting.generate {} = .ok text ∧ greeting.scopes.length = 2 ∧
      ofEnvironment "_commands" greeting = .ok fs ∧ Written {} fs text ∧
      List.Forall₂ (Rebuilds greeting.tree) greeting.scopes fs := by
  have hok : (greeting.generate {}).isOk = true := by decide +kernel
  cases h : greeting.generate {} with
  | error f => simp [h, Except.isOk, Except.toBool] at hok
  | ok text =>
    obtain ⟨fs, hfs, htext, hall⟩ :=
      generate_rebuilds_scopes (Environment.assembled_ofDeclarations {} _) h
    exact ⟨text, fs, rfl, by decide +kernel, hfs, htext, hall⟩

end CommandTree.Factory
