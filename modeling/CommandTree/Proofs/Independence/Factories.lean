import CommandTree.Proofs.Factory.Body
import CommandTree.Proofs.Independence.Lints

/-!
# Factories of embedded environments

A scope of the smaller environment and its image in the larger one have the same factory. A node is
built in the same way (`Embeds.buildNode`) from the renamed children (`Embeds.builtChildren`), so
the nodes are built in the same order, with other handles. Variables are numbered by their place in
this order, and the handles do not show in the body (`Embeds.bodyOf`).
-/

namespace CommandTree

theorem idxOf_map {α β : Type} [DecidableEq α] [DecidableEq β] {f : α → β} {as : List α} {a : α}
    (h : ∀ b ∈ as, f b = f a → b = a) : (as.map f).idxOf (f a) = as.idxOf a := by
  induction as with
  | nil => rfl
  | cons b rest ih =>
    rw [List.forall_mem_cons] at h
    have hbeq : (f b == f a) = (b == a) := Bool.eq_iff_iff.mpr (by
      simpa using ⟨h.1, congrArg f⟩)
    rw [List.map_cons, List.idxOf_cons, List.idxOf_cons, hbeq, ih h.2]

namespace Factory

theorem Statement.rename_rename (var var' : Nat → Nat) (st : Statement) :
    (st.rename var).rename var' = st.rename fun n => var' (var n) := by
  cases st <;> rfl

end Factory

namespace Environment.Embeds

variable {types names : List String} {r : Nat → Nat} {part whole : Environment}
  (h : part.Embeds types names r whole) (hpart : part.Sound) (hwhole : whole.Sound) {s : Scope}
  (hs : s ∈ part.scopes)

include h hpart hwhole

/-! ## One node -/

theorem bound {n : Nat} (hlt : n < part.tree.size) (s : Scope) :
    Factory.bound whole (s.image r) (r n) = (Factory.bound part s n).map (.image r) := by
  unfold Factory.bound
  rw [h.bindingsOf hpart hwhole hlt, List.filter_map]
  rfl

theorem boundAs {n : Nat} (hlt : n < part.tree.size) (s : Scope) (role : Role) :
    Factory.boundAs whole (s.image r) (r n) role = Factory.boundAs part s n role := by
  unfold Factory.boundAs
  rw [h.bound hpart hwhole hlt, List.find?_map, Option.map_map]
  rfl

/-- A node is built as its image is. -/
theorem buildNode {n : Nat} (hpos : 0 < n) (hlt : n < part.tree.size) (s : Scope) :
    Factory.buildNode whole (s.image r) (r n) = Factory.buildNode part s n := by
  have hbound := h.boundAs hpart hwhole hlt s
  have hcommon : Factory.commonCalls whole (s.image r) (r n) = Factory.commonCalls part s n := by
    unfold Factory.commonCalls
    rw [hbound, hbound]
  have hpath := h.tree.path hpart.tree hwhole.tree hlt
  have hliteral : Factory.buildLiteral whole (s.image r) (r n) = Factory.buildLiteral part s n := by
    have hfind : (Factory.bound whole (s.image r) (r n)).find? (·.role.isForArgument) =
        ((Factory.bound part s n).find? (·.role.isForArgument)).map (.image r) := by
      rw [h.bound hpart hwhole hlt, List.find?_map]
      rfl
    unfold Factory.buildLiteral
    dsimp only
    rw [hfind, hcommon, hpath, h.tree.identity hpos hlt, h.tree.aliases hpos hlt]
    cases (Factory.bound part s n).find? (·.role.isForArgument) <;> rfl
  have hargument : ∀ info, Factory.buildArgument whole (s.image r) (r n) info =
      Factory.buildArgument part s n info := by
    intro info
    unfold Factory.buildArgument
    dsimp only
    rw [hbound, hbound, hcommon, hpath, h.tree.identity hpos hlt, h.tree.origin hpos hlt]
    rfl
  unfold Factory.buildNode
  rw [h.tree.detail hpos hlt, hliteral]
  simp only [hargument]

/-! ## The order of building -/

include hs

theorem builtChildren {n : Nat} (hn : n ∈ s.nodes) :
    Factory.builtChildren whole.tree (s.image r) (r n) =
      (Factory.builtChildren part.tree s n).map r := by
  obtain ⟨hpos, hlt⟩ := hpart.node_lt hs hn
  have hnone := (hpart.rooted hs).aliasOf hn
  have hnone' : (whole.tree.node (r n)).aliasOf = none := by
    rw [h.tree.aliasOf hpart.tree hwhole.tree hlt, hnone]
    rfl
  rw [Factory.builtChildren_eq_filter hpart.tree hnone,
    Factory.builtChildren_eq_filter hwhole.tree hnone', h.tree.children hpos hlt, List.map_map]
  have hmap : (part.tree.node n).children.map ((·.2) ∘ fun e => (e.1, r e.2)) =
      ((part.tree.node n).children.map (·.2)).map r := by
    rw [List.map_map]
    rfl
  rw [hmap, List.filter_map]
  refine congrArg (List.map r) (List.filter_congr fun c hc => ?_)
  obtain ⟨e, he, rfl⟩ := List.mem_map.mp hc
  have hlt' := hpart.tree.lt_of_mem_children he
  simp only [Function.comp_apply, Factory.isBuilt, Node.isAlias,
    h.contains_image hpart.toWellFormed hs hlt', h.tree.aliasOf hpart.tree hwhole.tree hlt',
    Option.isSome_map]

/-- Branches are renamed. -/
theorem order_branch {n : Nat} (hn : n ∈ s.nodes) :
    (Factory.branch whole.tree (s.image r) (r n)).order =
      (Factory.branch part.tree s n).order.map r := by
  induction n using Factory.branch.induct part.tree s with
  | case1 n ih =>
    rw [Factory.order_branch, Factory.order_branch, h.builtChildren hpart hwhole hs hn,
      List.map_append, List.map_singleton]
    congr 1
    unfold Factory.orderOf
    rw [List.flatMap_map, List.map_flatMap]
    exact List.flatMap_congr fun c hc =>
      ih c hc (Factory.mem_nodes_of_mem_builtChildren hc).1

theorem buildOrder :
    Factory.buildOrder whole.tree (s.image r) = (Factory.buildOrder part.tree s).map r := by
  unfold Factory.buildOrder Factory.orderOf
  rw [show (s.image r).commands = s.commands.map r from rfl, List.flatMap_map, List.map_flatMap]
  exact List.flatMap_congr fun n hn =>
    h.order_branch hpart hwhole hs ((hpart.rooted hs).commands_subset hn)

/-! ## Bodies -/

theorem statementsOf {n : Nat} (hn : n ∈ s.nodes) :
    Factory.statementsOf whole (s.image r) (r n) =
      (Factory.statementsOf part s n).map (.rename r) := by
  obtain ⟨hpos, hlt⟩ := hpart.node_lt hs hn
  have hplan : Factory.plan whole (s.image r) (r n) = Factory.plan part s n := by
    unfold Factory.plan
    rw [h.buildNode hpart hwhole hpos hlt]
  unfold Factory.statementsOf
  rw [h.builtChildren hpart hwhole hs hn, hplan, List.isEmpty_map, List.map_cons, List.map_map,
    List.map_map]
  rfl

/-- The script of a scope is renamed, with its handles. -/
theorem forestScript : Factory.forestScript whole (s.image r) (s.image r).commands =
    (Factory.forestScript part s s.commands).map (.rename r) := by
  unfold Factory.forestScript
  rw [show (s.image r).commands = s.commands.map r from rfl, List.flatMap_map, List.map_flatMap]
  refine List.flatMap_congr fun n hn => ?_
  have hn := (hpart.rooted hs).commands_subset hn
  unfold Factory.script
  rw [h.order_branch hpart hwhole hs hn, List.map_append, List.flatMap_map, List.map_flatMap]
  congr 1
  refine List.flatMap_congr fun m hm => h.statementsOf hpart hwhole hs ?_
  exact (Factory.mem_order_branch.mp hm).mem_nodes hn

/-- The body of a scope's factory. -/
theorem bodyOf : Factory.bodyOf whole (s.image r) = Factory.bodyOf part s := by
  have hnodes : ∀ n ∈ Factory.buildOrder part.tree s, n ∈ s.nodes := fun n =>
    (Factory.perm_nodes hpart.tree (hpart.rooted hs)).mem_iff.mp
  have hvar : ∀ n ∈ s.nodes, Factory.varOf whole.tree (s.image r) (r n) =
      Factory.varOf part.tree s n := by
    intro n hn
    unfold Factory.varOf
    rw [h.buildOrder hpart hwhole hs]
    exact idxOf_map fun m hm =>
      h.tree.inj (hpart.node_lt hs (hnodes m hm)).2 (hpart.node_lt hs hn).2
  unfold Factory.bodyOf
  rw [h.forestScript hpart hwhole hs, List.map_map]
  refine List.map_congr_left fun st hst => ?_
  rw [Function.comp_apply, Factory.Statement.rename_rename]
  rcases Factory.mem_forestScript.mp hst with ⟨n, hn, hst⟩ | ⟨n, hn, rfl⟩
  · have hn := hnodes n hn
    rcases List.mem_cons.mp hst with rfl | hst
    · simp only [Factory.Statement.rename, hvar n hn]
    · obtain ⟨c, hc, rfl⟩ := List.mem_map.mp hst
      have hc := (Factory.mem_nodes_of_mem_builtChildren hc).1
      simp only [Factory.Statement.rename, hvar n hn, hvar c hc]
  · simp only [Factory.Statement.rename, hvar n ((hpart.rooted hs).commands_subset hn)]

omit hs in
/-- The factories of the types have the same bodies, in the same order. -/
theorem factories {suffix : String} {fs fs₁ : List Factory}
    (hfs : Factory.ofEnvironment suffix whole = .ok fs)
    (hfs₁ : Factory.ofEnvironment suffix part = .ok fs₁) :
    (fs.filter fun f => f.scope ∈ types).map (fun f => (f.scope, f.body)) =
      fs₁.map fun f => (f.scope, f.body) := by
  obtain ⟨-, -, rfl⟩ := (Factory.ofEnvironment_eq_ok hwhole.toWellFormed).mp hfs
  obtain ⟨-, -, rfl⟩ := (Factory.ofEnvironment_eq_ok hpart.toWellFormed).mp hfs₁
  rw [List.filter_map, List.map_map, List.map_map]
  calc (whole.scopes.filter fun s => s.name ∈ types).map (fun s => (s.name, Factory.bodyOf whole s))
      = part.scopes.map fun s => (s.name, Factory.bodyOf whole (s.image r)) := by
        rw [h.scopes, List.map_map]
        rfl
    _ = part.scopes.map fun s => (s.name, Factory.bodyOf part s) :=
        List.map_congr_left fun s hs => by rw [h.bodyOf hpart hwhole hs]

end Environment.Embeds

end CommandTree
