import CommandTree.Environment
import CommandTree.Proofs.Tree.WellFormed

/-!
# Scopes are rooted

A scope is *rooted* in a tree (`Scope.Rooted`) if it has no alias entry and, with each of its
nodes, all nodes on the way up to the root; its top-level commands are those of its nodes that
stand right below the root, in the same order. A node may be added to a rooted scope once its
parent is there (`Scope.Rooted.add`), and a scope stays rooted while the tree grows. A scope itself
only grows at its end (`Scope.Extends`).
-/

namespace CommandTree

section InsertLast

variable {α : Type} [DecidableEq α] {as : List α} {a b : α}

theorem mem_insertLast : b ∈ insertLast as a ↔ b ∈ as ∨ b = a := by
  unfold insertLast
  split
  · constructor
    · exact Or.inl
    · rintro (h | rfl)
      · exact h
      · assumption
  · simp

theorem nodup_insertLast (h : as.Nodup) : (insertLast as a).Nodup := by
  unfold insertLast
  split
  · exact h
  · rename_i hnot
    rw [List.nodup_append]
    refine ⟨h, by simp, ?_⟩
    rintro x hx y hy rfl
    exact hnot (List.mem_singleton.mp hy ▸ hx)

theorem prefix_insertLast (as : List α) (a : α) : as <+: insertLast as a := by
  unfold insertLast
  split
  · exact List.prefix_rfl
  · exact List.prefix_append _ _

/-- Filtering commutes with putting a member last. -/
theorem filter_insertLast (p : α → Bool) :
    (insertLast as a).filter p = if p a then insertLast (as.filter p) a else as.filter p := by
  unfold insertLast
  by_cases hp : p a <;> by_cases hmem : a ∈ as <;> simp [hp, hmem]

end InsertLast

namespace Scope

@[simp] theorem name_ofSite (site : Element) : (ofSite site).name = site.scope :=
  rfl

@[simp] theorem name_add (s : Scope) (node : Nat) (isCommand : Bool) :
    (s.add node isCommand).name = s.name :=
  rfl

@[simp] theorem mem_nodes_add {s : Scope} {node n : Nat} {isCommand : Bool} :
    n ∈ (s.add node isCommand).nodes ↔ n ∈ s.nodes ∨ n = node :=
  mem_insertLast

/-- The scope `s'` is that of the same type, with more nodes behind those of `s`. -/
structure Extends (s s' : Scope) : Prop where
  name : s'.name = s.name
  site : s'.site = s.site
  nodes : s.nodes <+: s'.nodes
  commands : s.commands <+: s'.commands

theorem Extends.refl (s : Scope) : s.Extends s :=
  ⟨rfl, rfl, List.prefix_rfl, List.prefix_rfl⟩

theorem Extends.trans {s s' s'' : Scope} (h : s.Extends s') (h' : s'.Extends s'') :
    s.Extends s'' where
  name := h'.name.trans h.name
  site := h'.site.trans h.site
  nodes := h.nodes.trans h'.nodes
  commands := h.commands.trans h'.commands

theorem extends_add (s : Scope) (node : Nat) (isCommand : Bool) :
    s.Extends (s.add node isCommand) := by
  refine ⟨rfl, rfl, prefix_insertLast _ _, ?_⟩
  unfold add
  dsimp only
  split
  · exact prefix_insertLast _ _
  · exact List.prefix_rfl

/-- The scope has, with each of its nodes, the way up to the root. -/
structure Rooted (tree : Tree) (s : Scope) : Prop where
  nodup : s.nodes.Nodup
  aliasOf : ∀ {n}, n ∈ s.nodes → (tree.node n).aliasOf = none
  parent : ∀ {n}, n ∈ s.nodes →
    ∃ p, (tree.node n).parent = some p ∧ (p = 0 ∨ p ∈ s.nodes)
  commands : s.commands = s.nodes.filter fun n => (tree.node n).parent == some 0

theorem rooted_ofSite (tree : Tree) (site : Element) : (ofSite site).Rooted tree := by
  constructor <;> simp [ofSite]

/-- Adding a node whose parent is the root or in the scope. -/
theorem Rooted.add {tree : Tree} {s : Scope} (hs : s.Rooted tree) {node p : Nat}
    (hnone : (tree.node node).aliasOf = none) (hparent : (tree.node node).parent = some p)
    (hp : p = 0 ∨ p ∈ s.nodes) :
    (s.add node ((tree.node node).parent == some 0)).Rooted tree := by
  constructor
  case nodup => exact nodup_insertLast hs.nodup
  case aliasOf =>
    intro n hn
    rcases mem_nodes_add.mp hn with hn | rfl
    · exact hs.aliasOf hn
    · exact hnone
  case parent =>
    intro n hn
    rcases mem_nodes_add.mp hn with hn | rfl
    · obtain ⟨q, hq, hmem⟩ := hs.parent hn
      exact ⟨q, hq, hmem.imp_right fun h => mem_nodes_add.mpr (Or.inl h)⟩
    · exact ⟨p, hparent, hp.imp_right fun h => mem_nodes_add.mpr (Or.inl h)⟩
  case commands =>
    simp only [Scope.add]
    rw [filter_insertLast, ← hs.commands]

/-- A scope stays rooted while the tree grows. -/
theorem Rooted.extends {t t' : Tree} {s : Scope} (hs : s.Rooted t) (ht : t.WellFormed)
    (h : t.Extends t') : s.Rooted t' := by
  have hlt : ∀ {n}, n ∈ s.nodes → n < t.size := fun hn => by
    obtain ⟨p, hp, -⟩ := hs.parent hn
    exact (ht.parent_lt hp).2.1
  constructor
  case nodup => exact hs.nodup
  case aliasOf => exact fun hn => by rw [h.aliasOf (hlt hn), hs.aliasOf hn]
  case parent =>
    intro n hn
    rw [h.parent (hlt hn)]
    exact hs.parent hn
  case commands =>
    rw [hs.commands]
    exact List.filter_congr fun n hn => by rw [h.parent (hlt hn)]

/-! ## Entering a scope -/

variable {site : Element} {node : Nat} {isCommand : Bool} {scopes : List Scope}

/-- Each scope was there before, or it is that of the element's type with the node added. -/
theorem mem_enter {s : Scope} (h : s ∈ enter site node isCommand scopes) :
    s ∈ scopes ∨ ∃ old, s = old.add node isCommand ∧ old.name = site.scope ∧
      (old ∈ scopes ∨ old = ofSite site ∧ ∀ s' ∈ scopes, s'.name ≠ site.scope) := by
  induction scopes with
  | nil => exact Or.inr ⟨_, List.mem_singleton.mp h, rfl, Or.inr ⟨rfl, by simp⟩⟩
  | cons first rest ih =>
    rw [enter] at h
    split at h
    · rename_i hname
      rcases List.mem_cons.mp h with rfl | h
      · exact Or.inr ⟨first, rfl, hname, Or.inl (by simp)⟩
      · exact Or.inl (by simp [h])
    · rename_i hname
      rcases List.mem_cons.mp h with rfl | h
      · exact Or.inl (by simp)
      · rcases ih h with h | ⟨old, hold, hname', hmem⟩
        · exact Or.inl (by simp [h])
        · refine Or.inr ⟨old, hold, hname', hmem.imp (by simp +contextual) ?_⟩
          rintro ⟨rfl, hnone⟩
          exact ⟨rfl, by simpa [hname] using hnone⟩

/-- A new scope comes last, and there is one only if the type has none. -/
theorem map_name_enter : (enter site node isCommand scopes).map (·.name) =
    insertLast (scopes.map (·.name)) site.scope := by
  induction scopes with
  | nil => rfl
  | cons first rest ih =>
    rw [enter]
    split
    · rename_i hname
      simp [insertLast, hname]
    · rename_i hname
      rw [List.map_cons, ih]
      by_cases hmem : site.scope ∈ rest.map (·.name) <;>
        simp [insertLast, hmem, Ne.symm hname]

/-- No scope loses a node. -/
theorem exists_mem_enter {s : Scope} (h : s ∈ scopes) :
    ∃ s' ∈ enter site node isCommand scopes, s.Extends s' := by
  induction scopes with
  | nil => simp at h
  | cons first rest ih =>
    rw [enter]
    rcases List.mem_cons.mp h with rfl | h
    · split
      · exact ⟨s.add node isCommand, by simp, s.extends_add node isCommand⟩
      · exact ⟨s, by simp, .refl s⟩
    · split
      · exact ⟨s, by simp [h], .refl s⟩
      · obtain ⟨s', hs', hext⟩ := ih h
        exact ⟨s', by simp [hs'], hext⟩

/-- The node is in the scope that it enters. -/
theorem exists_mem_enter_self :
    ∃ s ∈ enter site node isCommand scopes, s.name = site.scope ∧ node ∈ s.nodes := by
  induction scopes with
  | nil => exact ⟨(ofSite site).add node isCommand, by simp [enter], rfl, by simp⟩
  | cons first rest ih =>
    rw [enter]
    split
    · rename_i hname
      exact ⟨first.add node isCommand, by simp, hname, by simp⟩
    · obtain ⟨s, hs, hname⟩ := ih
      exact ⟨s, by simp [hs], hname⟩

/-- With distinct names there is one scope of each name. -/
theorem eq_of_name_eq (h : (scopes.map (·.name)).Nodup) {s s' : Scope} (hs : s ∈ scopes)
    (hs' : s' ∈ scopes) (hname : s.name = s'.name) : s = s' :=
  List.inj_on_of_nodup_map h hs hs' hname

end Scope

end CommandTree
