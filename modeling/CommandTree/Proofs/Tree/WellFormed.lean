import CommandTree.Proofs.Tree.Growth

/-!
# Well-formed trees

A tree is *well formed* (`Tree.WellFormed`) if its parent links, its ordered children and its
alias entries agree: every node but the root stands among the children of an earlier node that
is no alias entry, under its own identity; siblings differ in their names; and an alias entry
has the parent and the children of the node it stands for.

A tree grows by one node at a time. `Grafted` says what all nodes are after that, for a new
command and for a new alias entry alike, and `WellFormed.of_grafted` is the one proof that
growing keeps a tree well formed. What is left are the changes of a single node that no other
node depends on (`WellFormed.modify`).
-/

namespace CommandTree

/-- The detail is one for nodes of this kind. -/
def Detail.Fits : Detail → Kind → Prop
  | .literal, .literal => True
  | .argument _, .argument => True
  | _, _ => False

theorem Detail.fits_ofKind (kind : Kind) : (Detail.ofKind kind).Fits kind := by
  cases kind <;> trivial

/-- The node without bindings. -/
def Node.bare (n : Node) : Node :=
  { n with bindings := [] }

namespace Tree

/-- The links between the nodes of a tree agree. -/
structure WellFormed (t : Tree) : Prop where
  root_lt : 0 < t.size
  root_detail : (t.node 0).detail = .root
  root_parent : (t.node 0).parent = none
  root_aliasOf : (t.node 0).aliasOf = none
  parent : ∀ {id}, 0 < id → id < t.size →
    ∃ p, (t.node id).parent = some p ∧ p < id ∧ (t.node p).aliasOf = none
  listed : ∀ {id p}, (t.node id).parent = some p →
    ((t.node id).identity, id) ∈ (t.node p).children
  child : ∀ {p identity c}, (t.node p).aliasOf = none → (identity, c) ∈ (t.node p).children →
    c < t.size ∧ (t.node c).identity = identity ∧ (t.node c).parent = some p
  names : ∀ p, ((t.node p).children.map (·.1.name)).Nodup
  entry : ∀ {p e}, e ∈ (t.node p).entries → e < t.size ∧ (t.node e).aliasOf = some p
  mirror : ∀ {e p}, (t.node e).aliasOf = some p →
    e ∈ (t.node p).entries ∧ (t.node p).aliasOf = none ∧
      (t.node e).parent = (t.node p).parent ∧ (t.node e).children = (t.node p).children
  detail : ∀ {id}, 0 < id → id < t.size → (t.node id).detail.Fits (t.node id).identity.kind
  aliases : ∀ {id}, (t.node id).aliases ≠ [] → (t.node id).identity.kind = .literal

theorem WellFormed.empty : empty.WellFormed := by
  constructor <;> simp [node_empty, Node.root] <;> omega

namespace WellFormed

variable {t : Tree} (ht : t.WellFormed)

include ht

/-- Parents come before their children and are no alias entries. -/
theorem parent_lt {id p : Nat} (h : (t.node id).parent = some p) :
    0 < id ∧ id < t.size ∧ p < id ∧ (t.node p).aliasOf = none := by
  have hid : id ≠ 0 := by
    rintro rfl
    simp [ht.root_parent] at h
  have hlt : id < t.size := lt_size_of_ne_root fun heq => by simp [heq, Node.root] at h
  obtain ⟨q, hq, hlt', hnone⟩ := ht.parent (by omega) hlt
  obtain rfl : q = p := by simpa [hq] using h
  exact ⟨by omega, hlt, hlt', hnone⟩

theorem aliasOf_lt {e p : Nat} (h : (t.node e).aliasOf = some p) : p < t.size := by
  have hmem := (ht.mirror h).1
  exact lt_size_of_ne_root fun heq => by simp [heq, Node.root] at hmem

/-- What a node stands for is no alias entry. -/
theorem aliasOf_primary (id : Nat) : (t.node (t.primary id)).aliasOf = none := by
  cases h : (t.node id).aliasOf with
  | none => rw [primary_of_aliasOf_eq_none h, h]
  | some p => simpa [primary, h] using (ht.mirror h).2.1

/-- Looking through an alias entry keeps the parent. -/
theorem parent_primary (id : Nat) : (t.node (t.primary id)).parent = (t.node id).parent := by
  cases h : (t.node id).aliasOf with
  | none => rw [primary_of_aliasOf_eq_none h]
  | some p => simpa [primary, h] using (ht.mirror h).2.2.1.symm

theorem primary_lt {id : Nat} (h : id < t.size) : t.primary id < t.size := by
  cases ha : (t.node id).aliasOf with
  | none => rwa [primary_of_aliasOf_eq_none ha]
  | some p => simpa [primary, ha] using ht.aliasOf_lt ha

/-- The node that a name leads to is below the node where the name is looked up. -/
theorem parent_of_find {p id : Nat} {name : String} (hp : (t.node p).aliasOf = none)
    (h : t.find p name = some id) : (t.node (t.primary id)).parent = some p := by
  obtain ⟨identity, -, hmem⟩ := mem_children_of_find h
  rw [primary_of_aliasOf_eq_none hp] at hmem
  rw [ht.parent_primary]
  exact (ht.child hp hmem).2.2

/-- A child is found under its identity: an earlier child with the same identity would have the same
name. -/
theorem lookup_eq_some_iff {p c : Nat} {identity : Identity} :
    (t.node p).children.lookup identity = some c ↔ (identity, c) ∈ (t.node p).children := by
  constructor
  · intro h
    obtain ⟨l₁, l₂, heq, -⟩ := List.lookup_eq_some_iff.mp h
    simp [heq]
  · intro h
    obtain ⟨l₁, l₂, heq⟩ := List.append_of_mem h
    refine List.lookup_eq_some_iff.mpr ⟨l₁, l₂, heq, fun e he => bne_iff_ne.mpr ?_⟩
    rintro rfl
    have hnames := ht.names p
    rw [heq, List.map_append, List.nodup_append] at hnames
    exact hnames.2.2 _ (List.mem_map_of_mem he) _ (List.mem_map_of_mem List.mem_cons_self) rfl

/-- Looking up an identity finds the child that has it. -/
theorem child_eq_some_iff {p c : Nat} {identity : Identity} :
    t.child p identity = some c ↔ (identity, c) ∈ (t.node (t.primary p)).children :=
  ht.lookup_eq_some_iff

/-- A name leads to the one child that has it, whatever its kind. -/
theorem find_eq_some_iff {p c : Nat} {name : String} :
    t.find p name = some c ↔ ∃ identity : Identity, identity.name = name ∧
      (identity, c) ∈ (t.node (t.primary p)).children := by
  refine ⟨mem_children_of_find, ?_⟩
  rintro ⟨identity, rfl, hmem⟩
  obtain ⟨c', hc'⟩ : ∃ c', t.find p identity.name = some c' := by
    refine Option.ne_none_iff_exists'.mp fun hnone => ?_
    exact find_eq_none_iff.mp hnone _ hmem rfl
  obtain ⟨identity', hname, hmem'⟩ := mem_children_of_find hc'
  have heq := List.inj_on_of_nodup_map (ht.names _) hmem' hmem hname
  rw [hc', (Prod.mk.inj heq).2]

/-- A node is found under its name. -/
theorem find_of_parent {id p : Nat} (h : (t.node id).parent = some p) :
    t.find p (t.node id).identity.name = some id := by
  rw [ht.find_eq_some_iff, primary_of_aliasOf_eq_none (ht.parent_lt h).2.2.2]
  exact ⟨_, rfl, ht.listed h⟩

/-- A child is listed once. -/
theorem nodup_children (p : Nat) (hp : (t.node p).aliasOf = none) :
    ((t.node p).children.map (·.2)).Nodup := by
  have hnames := ht.names p
  rw [List.Nodup, List.pairwise_map] at hnames ⊢
  refine hnames.imp_of_mem fun {a b} ha hb hne heq => hne ?_
  rw [← (ht.child hp ha).2.1, ← (ht.child hp hb).2.1, heq]

theorem lt_of_mem_children {p : Nat} {e : Identity × Nat} (he : e ∈ (t.node p).children) :
    e.2 < t.size := by
  cases h : (t.node p).aliasOf with
  | none => exact (ht.child h he).1
  | some q =>
    obtain ⟨-, hnone, -, hchildren⟩ := ht.mirror h
    rw [hchildren] at he
    exact (ht.child hnone he).1

/-- The root has no alias entry, since that would have no parent. -/
theorem entries_root : (t.node 0).entries = [] := by
  refine List.eq_nil_iff_forall_not_mem.mpr fun e he => ?_
  obtain ⟨hlt, hal⟩ := ht.entry he
  have hpos : 0 < e := by
    rcases Nat.eq_zero_or_pos e with rfl | hpos
    · simp [ht.root_aliasOf] at hal
    · exact hpos
  obtain ⟨p, hp, -⟩ := ht.parent hpos hlt
  rw [(ht.mirror hal).2.2.1, ht.root_parent] at hp
  cases hp

/-- Only the root stands for the root. -/
theorem primary_pos {id : Nat} (hpos : 0 < id) : 0 < t.primary id := by
  cases h : (t.node id).aliasOf with
  | none => rwa [primary_of_aliasOf_eq_none h]
  | some p =>
    have hentry := (ht.mirror h).1
    have hp : p ≠ 0 := by
      rintro rfl
      simp [ht.entries_root] at hentry
    simpa [primary, h] using Nat.pos_of_ne_zero hp

end WellFormed

/-! ## Growing by a node -/

/-- The tree `t'` is `t` with the node `new` behind the children of `parent` and of its alias
entries. If `new` is an alias entry, the node that it stands for has one more. -/
structure Grafted (t : Tree) (parent : Nat) (new : Node) (t' : Tree) : Prop where
  size : t'.size = t.size + 1
  node : ∀ id, t'.node id =
    if id = t.size then new
    else
      { t.node id with
        children :=
          if t.Shares parent id then (t.node parent).children ++ [(new.identity, t.size)]
          else (t.node id).children
        entries :=
          if new.aliasOf = some id then (t.node id).entries ++ [t.size]
          else (t.node id).entries
        aliases :=
          if new.aliasOf = some id then (t.node id).aliases ++ [new.identity.name]
          else (t.node id).aliases }

/-- What may be grafted under `parent`: a command without children, or an alias entry with the
children of a literal under `parent`. The name is a new one. -/
structure Graftable (t : Tree) (parent : Nat) (new : Node) : Prop where
  parent_lt : parent < t.size
  parent_aliasOf : (t.node parent).aliasOf = none
  fresh : t.find parent new.identity.name = none
  parent_eq : new.parent = some parent
  detail : new.detail.Fits new.identity.kind
  aliases : new.aliases = []
  entries : new.entries = []
  bindings : new.bindings = []
  stands : (new.aliasOf = none ∧ new.children = []) ∨
    ∃ id, new.aliasOf = some id ∧ (t.node id).aliasOf = none ∧
      (t.node id).parent = some parent ∧ (t.node id).identity.kind = .literal ∧
      new.children = (t.node id).children

section Graft

variable {t t' : Tree} {parent : Nat} {new : Node}

/-- A command with a new name may be grafted. -/
theorem graftable_command {identity : Identity} {detail : Detail} (hlt : parent < t.size)
    (hnone : (t.node parent).aliasOf = none) (hfresh : t.find parent identity.name = none)
    (hfits : detail.Fits identity.kind) (origin : Option Element) :
    t.Graftable parent { identity, detail, parent := some parent, origin } :=
  ⟨hlt, hnone, hfresh, rfl, hfits, rfl, rfl, rfl, Or.inl ⟨rfl, rfl⟩⟩

/-- A node that takes the new child is the parent, or one of its alias entries. -/
theorem WellFormed.eq_of_shares (ht : t.WellFormed) {id : Nat}
    (hid : (t.node id).aliasOf = none) (h : t.Shares parent id) : id = parent := by
  rcases h with h | h
  · exact h
  · simp [(ht.entry h).2] at hid

/-- Nodes that share children have the same. -/
theorem WellFormed.children_of_shares (ht : t.WellFormed) {id : Nat}
    (h : t.Shares parent id) : (t.node id).children = (t.node parent).children := by
  rcases h with rfl | h
  · rfl
  · exact (ht.mirror (ht.entry h).2).2.2.2

namespace Grafted

variable (h : t.Grafted parent new t')

include h

theorem node_size : t'.node t.size = new := by
  rw [h.node, if_pos rfl]

theorem node_of_ne {id : Nat} (hid : id ≠ t.size) :
    (t'.node id).parent = (t.node id).parent ∧ (t'.node id).aliasOf = (t.node id).aliasOf ∧
      (t'.node id).identity = (t.node id).identity ∧
      (t'.node id).detail = (t.node id).detail := by
  rw [h.node, if_neg hid]
  exact ⟨rfl, rfl, rfl, rfl⟩

/-- The new node is the last child of its parent and of the parent's alias entries. -/
theorem children_of_shares {id : Nat} (hid : id ≠ t.size) (hs : t.Shares parent id) :
    (t'.node id).children = (t.node parent).children ++ [(new.identity, t.size)] := by
  rw [h.node, if_neg hid]
  exact if_pos hs

theorem children_of_not_shares {id : Nat} (hid : id ≠ t.size) (hs : ¬t.Shares parent id) :
    (t'.node id).children = (t.node id).children := by
  rw [h.node, if_neg hid]
  exact if_neg hs

/-- A new alias entry is the last one of the node that it stands for. -/
theorem entries_of_ne {id : Nat} (hid : id ≠ t.size) :
    (t'.node id).entries =
      if new.aliasOf = some id then (t.node id).entries ++ [t.size] else (t.node id).entries := by
  rw [h.node, if_neg hid]

theorem aliases_of_ne {id : Nat} (hid : id ≠ t.size) :
    (t'.node id).aliases =
      if new.aliasOf = some id then (t.node id).aliases ++ [new.identity.name]
      else (t.node id).aliases := by
  rw [h.node, if_neg hid]

theorem bindings (hnew : t.Graftable parent new) (id : Nat) :
    (t'.node id).bindings = (t.node id).bindings := by
  by_cases hid : id = t.size
  · rw [hid, h.node_size, hnew.bindings, node_of_size_le (Nat.le_refl _)]
    rfl
  · rw [h.node, if_neg hid]

/-- Children are kept. -/
theorem mem_children (ht : t.WellFormed) {id : Nat} (hid : id ≠ t.size)
    {e : Identity × Nat} (he : e ∈ (t.node id).children) : e ∈ (t'.node id).children := by
  by_cases hs : t.Shares parent id
  · rw [h.children_of_shares hid hs, ← ht.children_of_shares hs]
    exact List.mem_append_left _ he
  · rwa [h.children_of_not_shares hid hs]

end Grafted

/-- A child of a node other than an alias entry was there before, or is the new one. -/
theorem Grafted.child (ht : t.WellFormed) (hnew : t.Graftable parent new)
    (h : t.Grafted parent new t') {p c : Nat} {identity : Identity}
    (hp : (t'.node p).aliasOf = none) (hc : (identity, c) ∈ (t'.node p).children) :
    c < t'.size ∧ (t'.node c).identity = identity ∧ (t'.node c).parent = some p := by
  have old : ∀ q, (t.node q).aliasOf = none → (identity, c) ∈ (t.node q).children →
      c < t'.size ∧ (t'.node c).identity = identity ∧ (t'.node c).parent = some q := by
    intro q hq hmem
    obtain ⟨hlt, hi, hpar⟩ := ht.child hq hmem
    obtain ⟨h1, -, h2, -⟩ := h.node_of_ne (Nat.ne_of_lt hlt)
    exact ⟨by rw [h.size]; omega, h2.trans hi, h1.trans hpar⟩
  by_cases hsize : p = t.size
  · -- the new node has children only if it is an alias entry
    subst hsize
    rw [h.node_size] at hp hc
    rcases hnew.stands with ⟨-, hnil⟩ | ⟨id, hid, -⟩
    · simp [hnil] at hc
    · simp [hid] at hp
  · rw [(h.node_of_ne hsize).2.1] at hp
    by_cases hs : t.Shares parent p
    · obtain rfl := ht.eq_of_shares hp hs
      rw [h.children_of_shares hsize hs, List.mem_append, List.mem_singleton] at hc
      rcases hc with hc | hc
      · exact old p hp hc
      · obtain ⟨rfl, rfl⟩ := Prod.mk.inj hc
        rw [h.node_size, h.size]
        exact ⟨by omega, rfl, hnew.parent_eq⟩
    · rw [h.children_of_not_shares hsize hs] at hc
      exact old p hp hc

/-- A new child has a name that none of its siblings has. -/
theorem Grafted.names (ht : t.WellFormed) (hnew : t.Graftable parent new)
    (h : t.Grafted parent new t') (p : Nat) : ((t'.node p).children.map (·.1.name)).Nodup := by
  by_cases hsize : p = t.size
  · subst hsize
    rw [h.node_size]
    rcases hnew.stands with ⟨-, hnil⟩ | ⟨id, -, -, -, -, hchildren⟩
    · simp [hnil]
    · rw [hchildren]
      exact ht.names id
  · by_cases hs : t.Shares parent p
    · have hfresh := find_eq_none_iff.mp hnew.fresh
      rw [primary_of_aliasOf_eq_none hnew.parent_aliasOf] at hfresh
      rw [h.children_of_shares hsize hs, List.map_append, List.nodup_append]
      refine ⟨ht.names parent, by simp, ?_⟩
      rintro _ ha _ hb rfl
      obtain ⟨e, he, hname⟩ := List.mem_map.mp ha
      exact hfresh e he (by simpa [hname] using hb)
    · rw [h.children_of_not_shares hsize hs]
      exact ht.names p

/-- An alias entry is one of the node it stands for, and has its parent and children. -/
theorem Grafted.mirror (ht : t.WellFormed) (hnew : t.Graftable parent new)
    (h : t.Grafted parent new t') {e p : Nat} (hp : (t'.node e).aliasOf = some p) :
    e ∈ (t'.node p).entries ∧ (t'.node p).aliasOf = none ∧
      (t'.node e).parent = (t'.node p).parent ∧ (t'.node e).children = (t'.node p).children := by
  by_cases hsize : e = t.size
  · subst hsize
    rw [h.node_size] at hp ⊢
    rcases hnew.stands with ⟨hnone, -⟩ | ⟨id, hid, hnone, hparent, -, hchildren⟩
    · simp [hnone] at hp
    · obtain rfl : id = p := by simpa [hid] using hp
      obtain ⟨-, hlt, hlt', -⟩ := ht.parent_lt hparent
      have hne : id ≠ t.size := by omega
      have hns : ¬t.Shares parent id := fun hs => by
        have := ht.eq_of_shares hnone hs
        omega
      obtain ⟨h1, h2, -, -⟩ := h.node_of_ne hne
      rw [h1, h2, h.entries_of_ne hne, if_pos hid, h.children_of_not_shares hne hns]
      exact ⟨by simp, hnone, by rw [hparent, hnew.parent_eq], hchildren⟩
  · rw [(h.node_of_ne hsize).2.1] at hp
    obtain ⟨hmem, hnone, hparent, hchildren⟩ := ht.mirror hp
    have hne : p ≠ t.size := by
      have := ht.aliasOf_lt hp
      omega
    obtain ⟨h1, h2, -, -⟩ := h.node_of_ne hne
    refine ⟨?_, h2.trans hnone, ?_, ?_⟩
    · rw [h.entries_of_ne hne]
      split
      · exact List.mem_append_left _ hmem
      · exact hmem
    · rw [h1, (h.node_of_ne hsize).1, hparent]
    · -- both or none of them take the new child
      by_cases hs : t.Shares parent p
      · obtain rfl := ht.eq_of_shares hnone hs
        rw [h.children_of_shares hne hs, h.children_of_shares hsize (Or.inr hmem)]
      · have hs' : ¬t.Shares parent e := by
          rintro (rfl | hmem')
          · simp [hnew.parent_aliasOf] at hp
          · have := (ht.entry hmem').2
            rw [hp] at this
            exact hs (Or.inl (Option.some.inj this))
        rw [h.children_of_not_shares hne hs, h.children_of_not_shares hsize hs', hchildren]

/-- Growing by a node keeps a tree well formed. -/
theorem WellFormed.of_grafted (ht : t.WellFormed) (hnew : t.Graftable parent new)
    (h : t.Grafted parent new t') : t'.WellFormed := by
  have hroot : (0 : Nat) ≠ t.size := by have := ht.root_lt; omega
  have hsize := h.size
  have hparent : parent ≠ t.size := by have := hnew.parent_lt; omega
  constructor
  case root_lt => omega
  case root_detail => rw [(h.node_of_ne hroot).2.2.2, ht.root_detail]
  case root_parent => rw [(h.node_of_ne hroot).1, ht.root_parent]
  case root_aliasOf => rw [(h.node_of_ne hroot).2.1, ht.root_aliasOf]
  case parent =>
    intro id hpos hlt
    by_cases hid : id = t.size
    · subst hid
      refine ⟨parent, by rw [h.node_size, hnew.parent_eq], hnew.parent_lt, ?_⟩
      rw [(h.node_of_ne hparent).2.1, hnew.parent_aliasOf]
    · obtain ⟨p, hp, hlt', hnone⟩ := ht.parent hpos (by omega)
      refine ⟨p, by rw [(h.node_of_ne hid).1, hp], hlt', ?_⟩
      rw [(h.node_of_ne (by omega)).2.1, hnone]
  case listed =>
    intro id p hp
    by_cases hid : id = t.size
    · subst hid
      rw [h.node_size, hnew.parent_eq] at hp
      obtain rfl := Option.some.inj hp
      rw [h.node_size, h.children_of_shares hparent (Or.inl rfl)]
      simp
    · obtain ⟨h1, -, h2, -⟩ := h.node_of_ne hid
      rw [h1] at hp
      rw [h2]
      have hlt := ht.parent_lt hp
      exact h.mem_children ht (by omega) (ht.listed hp)
  case child => exact fun hp hc => h.child ht hnew hp hc
  case names => exact h.names ht hnew
  case entry =>
    intro p e he
    by_cases hp : p = t.size
    · subst hp
      simp [h.node_size, hnew.entries] at he
    · rw [h.entries_of_ne hp] at he
      split at he
      · rename_i halias
        rcases List.mem_append.mp he with he | he
        · obtain ⟨hlt, hal⟩ := ht.entry he
          exact ⟨by omega, by rw [(h.node_of_ne (by omega)).2.1, hal]⟩
        · obtain rfl := List.mem_singleton.mp he
          exact ⟨by omega, by rw [h.node_size, halias]⟩
      · obtain ⟨hlt, hal⟩ := ht.entry he
        exact ⟨by omega, by rw [(h.node_of_ne (by omega)).2.1, hal]⟩
  case mirror => exact fun hp => h.mirror ht hnew hp
  case detail =>
    intro id hpos hlt
    by_cases hid : id = t.size
    · subst hid
      rw [h.node_size]
      exact hnew.detail
    · obtain ⟨-, -, h1, h2⟩ := h.node_of_ne hid
      rw [h1, h2]
      exact ht.detail hpos (by omega)
  case aliases =>
    intro id hne
    by_cases hid : id = t.size
    · subst hid
      simp [h.node_size, hnew.aliases] at hne
    · rw [(h.node_of_ne hid).2.2.1]
      rw [h.aliases_of_ne hid] at hne
      split at hne
      · rename_i halias
        rcases hnew.stands with ⟨hnone, -⟩ | ⟨id', hid', -, -, hlit, -⟩
        · simp [hnone] at halias
        · obtain rfl : id' = id := by simpa [hid'] using halias
          exact hlit
      · exact ht.aliases hne

end Graft

/-- A tree that has grown by a node extends what it was. -/
theorem Grafted.extends {t t' : Tree} {parent : Nat} {new : Node} (ht : t.WellFormed)
    (h : t.Grafted parent new t') : t.Extends t' where
  size_le := by rw [h.size]; omega
  node {id} hid := by
    have hne : id ≠ t.size := Nat.ne_of_lt hid
    rw [h.node, if_neg hne]
    refine ⟨rfl, .refl _, rfl, ?_, List.prefix_rfl, ?_, rfl, ?_, rfl⟩ <;> dsimp only <;> split
    · rename_i hs
      rw [ht.children_of_shares hs]
      exact List.prefix_append _ _
    · exact List.prefix_rfl
    · exact List.prefix_append _ _
    · exact List.prefix_rfl
    · exact List.prefix_append _ _
    · exact List.prefix_rfl

/-! ## The operations -/

section Operations

variable {t : Tree}

/-- A new child comes last, in the parent and in its alias entries. -/
theorem Graftable.insert_children (ht : t.WellFormed) {parent : Nat} {new : Node}
    (hnew : t.Graftable parent new) {id : Nat} (hs : t.Shares parent id) :
    (t.node id).children.insert new.identity t.size =
      (t.node parent).children ++ [(new.identity, t.size)] := by
  have hfresh := find_eq_none_iff.mp hnew.fresh
  rw [primary_of_aliasOf_eq_none hnew.parent_aliasOf] at hfresh
  rw [ht.children_of_shares hs]
  exact Children.insert_of_forall_ne (fun e he heq => hfresh e he (by rw [heq])) _

theorem WellFormed.lt_of_shares (ht : t.WellFormed) {parent id : Nat} (hlt : parent < t.size)
    (hs : t.Shares parent id) : id < t.size := by
  rcases hs with rfl | hs
  · exact hlt
  · exact (ht.entry hs).1

/-- Attaching the new node to a tree `u` that has it, and the links of `t` otherwise. -/
theorem node_attach_last (ht : t.WellFormed) {parent : Nat} {new : Node}
    (hnew : t.Graftable parent new) {u : Tree} (hsize : u.size = t.size + 1)
    (hlast : u.node t.size = new) (hnone : (u.node parent).aliasOf = none)
    (hentries : (u.node parent).entries = (t.node parent).entries)
    (hchildren : ∀ id, id ≠ t.size → (u.node id).children = (t.node id).children) (id : Nat) :
    (u.attach parent t.size).node id =
      if id = t.size then new
      else
        { u.node id with
          children :=
            if t.Shares parent id then (t.node parent).children ++ [(new.identity, t.size)]
            else (t.node id).children } := by
  have hshares : u.Shares parent id ↔ t.Shares parent id := by
    unfold Shares
    rw [hentries]
  rw [node_attach hnone, hlast, hsize]
  by_cases hid : id = t.size
  · subst hid
    have hns : ¬t.Shares parent t.size := fun hs =>
      Nat.lt_irrefl _ (ht.lt_of_shares hnew.parent_lt hs)
    rw [if_neg (fun h => hns (hshares.mp h.1)), if_pos rfl, hlast]
  · rw [if_neg hid]
    by_cases hs : t.Shares parent id
    · have hlt := ht.lt_of_shares hnew.parent_lt hs
      rw [if_pos ⟨hshares.mpr hs, by omega⟩, if_pos hs, hchildren id hid,
        hnew.insert_children ht hs]
    · rw [if_neg (fun h => hs (hshares.mp h.1)), if_neg hs, ← hchildren id hid]

/-- A new command under `parent`. -/
theorem grafted_insert (ht : t.WellFormed) {parent : Nat} {identity : Identity}
    {detail : Detail} {origin : Option Element}
    (hnew : t.Graftable parent { identity, detail, parent := some parent, origin }) :
    t.Grafted parent { identity, detail, parent := some parent, origin }
      (t.insert parent identity detail origin) := by
  have hne : parent ≠ t.size := Nat.ne_of_lt hnew.parent_lt
  unfold insert
  rw [primary_of_aliasOf_eq_none hnew.parent_aliasOf]
  refine ⟨by simp, fun id => ?_⟩
  rw [node_attach_last ht hnew (by simp) (by simp [node_push])
    (by simpa [node_push, hne] using hnew.parent_aliasOf) (by simp [node_push, hne])
    (fun id hid => by simp [node_push, hid])]
  by_cases hid : id = t.size <;> simp [node_push, hid]

/-- The alias entry of the node `id` with the name `word`. -/
def aliasEntry (t : Tree) (id parent : Nat) (word : String) : Node :=
  { identity := .literal word
    detail := .literal
    parent := some parent
    children := (t.node id).children
    aliasOf := some id
    origin := (t.node id).origin }

/-- A literal can get an alias entry with a name that is new beside it. -/
theorem WellFormed.graftable_aliasEntry (ht : t.WellFormed) {id parent : Nat} {word : String}
    (hnone : (t.node id).aliasOf = none) (hparent : (t.node id).parent = some parent)
    (hkind : (t.node id).identity.kind = .literal) (hfresh : t.find parent word = none) :
    t.Graftable parent (t.aliasEntry id parent word) := by
  obtain ⟨-, hlt, hlt', hnone'⟩ := ht.parent_lt hparent
  exact ⟨by omega, hnone', hfresh, rfl, trivial, rfl, rfl, rfl,
    Or.inr ⟨id, rfl, hnone, hparent, hkind, rfl⟩⟩

/-- The tree with a new alias entry of the node `id` that no node has as a child yet. -/
def enlist (t : Tree) (id parent : Nat) (word : String) : Tree :=
  (t.push (t.aliasEntry id parent word)).modify id fun n =>
    { n with entries := n.entries ++ [t.size], aliases := n.aliases ++ [word] }

@[simp] theorem size_enlist (t : Tree) (id parent : Nat) (word : String) :
    (t.enlist id parent word).size = t.size + 1 := by
  simp [enlist]

/-- An alias entry is enlisted and then attached. -/
theorem pushEntry_eq (t : Tree) (id parent : Nat) (word : String) :
    t.pushEntry id parent word = (t.enlist id parent word).attach parent t.size :=
  rfl

/-- What the nodes are when an alias entry is listed but not attached. -/
theorem node_enlist {id : Nat} (hlt : id < t.size) (parent : Nat) (word : String) (k : Nat) :
    (t.enlist id parent word).node k =
      if k = t.size then t.aliasEntry id parent word
      else if k = id then
        { t.node k with
          entries := (t.node k).entries ++ [t.size], aliases := (t.node k).aliases ++ [word] }
      else t.node k := by
  rw [enlist, node_modify, node_push, size_push]
  by_cases hk : k = t.size
  · rw [if_neg (by omega), if_pos hk, if_pos hk]
  · by_cases hki : k = id
    · rw [if_pos ⟨hki, by omega⟩, if_neg hk, if_neg hk, if_pos hki]
    · rw [if_neg (fun h => hki h.1), if_neg hk, if_neg hk, if_neg hki]

/-- A new alias entry of the node `id`. -/
theorem grafted_pushEntry (ht : t.WellFormed) {id parent : Nat} {word : String}
    (hnew : t.Graftable parent (t.aliasEntry id parent word))
    (hid : (t.node id).parent = some parent) :
    t.Grafted parent (t.aliasEntry id parent word) (t.pushEntry id parent word) := by
  obtain ⟨-, hlt, hparent, -⟩ := ht.parent_lt hid
  have hne : parent ≠ t.size := Nat.ne_of_lt hnew.parent_lt
  have hne' : parent ≠ id := Nat.ne_of_lt hparent
  have hu := node_enlist hlt parent word
  rw [pushEntry_eq]
  refine ⟨by simp, fun k => ?_⟩
  rw [node_attach_last ht hnew (by simp) (by simp [hu])
    (by simpa [hu, hne, hne'] using hnew.parent_aliasOf) (by simp [hu, hne, hne'])
    (fun k hk => by rw [hu, if_neg hk]; split <;> rfl)]
  by_cases hk : k = t.size
  · rw [if_pos hk, if_pos hk]
  · rw [if_neg hk, if_neg hk, hu, if_neg hk]
    by_cases hki : k = id
    · subst hki
      simp [aliasEntry, Identity.literal]
    · simp [aliasEntry, hki, Ne.symm hki]

/-- Two nodes have the same links. They may differ in what is known of them. -/
structure SameLinks (n n' : Node) : Prop where
  identity : n'.identity = n.identity
  parent : n'.parent = n.parent
  children : n'.children = n.children
  aliases : n'.aliases = n.aliases
  aliasOf : n'.aliasOf = n.aliasOf
  entries : n'.entries = n.entries

/-- Nodes that differ in their bindings at most have the same links. -/
theorem SameLinks.of_bare {n n' : Node} (h : n'.bare = n.bare) : SameLinks n n' where
  identity := (congrArg Node.identity h :)
  parent := (congrArg Node.parent h :)
  children := (congrArg Node.children h :)
  aliases := (congrArg Node.aliases h :)
  aliasOf := (congrArg Node.aliasOf h :)
  entries := (congrArg Node.entries h :)

theorem sameLinks_modify {target : Nat} {f : Node → Node} (hf : ∀ n, SameLinks n (f n))
    (id : Nat) : SameLinks (t.node id) ((t.modify target f).node id) := by
  rw [node_modify]
  split
  · exact hf _
  · exact ⟨rfl, rfl, rfl, rfl, rfl, rfl⟩

theorem extends_modify {target : Nat} {f : Node → Node}
    (hf : (t.node target).Extends (f (t.node target))) : t.Extends (t.modify target f) where
  size_le := Nat.le_of_eq (size_modify t _ _).symm
  node {id} _ := by
    rw [node_modify]
    split
    · rename_i h
      rw [h.1]
      exact hf
    · exact .refl _

/-- A change of one node that no other node depends on. -/
theorem WellFormed.modify (ht : t.WellFormed) {target : Nat} {f : Node → Node}
    (hf : ∀ n, SameLinks n (f n))
    (hdetail : (f (t.node target)).detail = (t.node target).detail ∨
      0 < target ∧ (f (t.node target)).detail.Fits (t.node target).identity.kind) :
    (t.modify target f).WellFormed := by
  have hlinks : ∀ id, SameLinks (t.node id) ((t.modify target f).node id) :=
    sameLinks_modify hf
  have hdetails : ∀ id, ((t.modify target f).node id).detail = (t.node id).detail ∨
      0 < id ∧ ((t.modify target f).node id).detail.Fits (t.node id).identity.kind := by
    intro id
    rw [node_modify]
    split
    · rename_i h
      obtain ⟨rfl, -⟩ := h
      exact hdetail
    · exact Or.inl rfl
  constructor
  case root_lt => simpa using ht.root_lt
  case root_detail =>
    rcases hdetails 0 with h | h
    · rw [h, ht.root_detail]
    · exact absurd h.1 (Nat.lt_irrefl 0)
  case root_parent => rw [(hlinks 0).parent, ht.root_parent]
  case root_aliasOf => rw [(hlinks 0).aliasOf, ht.root_aliasOf]
  case parent =>
    intro id hpos hlt
    rw [(hlinks id).parent]
    obtain ⟨p, hp, hlt', hnone⟩ := ht.parent hpos (by simpa using hlt)
    exact ⟨p, hp, hlt', by rw [(hlinks p).aliasOf, hnone]⟩
  case listed =>
    intro id p hp
    rw [(hlinks id).parent] at hp
    rw [(hlinks id).identity, (hlinks p).children]
    exact ht.listed hp
  case child =>
    intro p identity c hp hc
    rw [(hlinks p).aliasOf] at hp
    rw [(hlinks p).children] at hc
    rw [(hlinks c).identity, (hlinks c).parent, size_modify]
    exact ht.child hp hc
  case names => exact fun p => by rw [(hlinks p).children]; exact ht.names p
  case entry =>
    intro p e he
    rw [(hlinks p).entries] at he
    rw [(hlinks e).aliasOf, size_modify]
    exact ht.entry he
  case mirror =>
    intro e p hp
    rw [(hlinks e).aliasOf] at hp
    rw [(hlinks p).entries, (hlinks p).aliasOf, (hlinks e).parent, (hlinks p).parent,
      (hlinks e).children, (hlinks p).children]
    exact ht.mirror hp
  case detail =>
    intro id hpos hlt
    rw [(hlinks id).identity]
    rcases hdetails id with h | h
    · rw [h]
      exact ht.detail hpos (by simpa using hlt)
    · exact h.2
  case aliases =>
    intro id hne
    rw [(hlinks id).aliases] at hne
    rw [(hlinks id).identity]
    exact ht.aliases hne

/-- Merging keeps a tree well formed. -/
theorem WellFormed.mergeArgument (ht : t.WellFormed) (id : Nat) (info : ArgumentInfo) :
    (t.mergeArgument id info).1.WellFormed := by
  unfold Tree.mergeArgument
  dsimp only
  split
  · rename_i old hold
    refine ht.modify (fun n => ⟨rfl, rfl, rfl, rfl, rfl, rfl⟩) (Or.inr ?_)
    have hpos : 0 < t.primary id := by
      rcases Nat.eq_zero_or_pos (t.primary id) with h | h
      · simp [h, ht.root_detail] at hold
      · exact h
    have hlt : t.primary id < t.size :=
      lt_size_of_ne_root fun heq => by simp [heq, Node.root] at hold
    have hfits := ht.detail hpos hlt
    rw [hold] at hfits
    refine ⟨hpos, ?_⟩
    cases hkind : (t.node (t.primary id)).identity.kind with
    | literal => simp [hkind, Detail.Fits] at hfits
    | argument => trivial
  · exact ht

theorem extends_mergeArgument (t : Tree) (id : Nat) (info : ArgumentInfo) :
    t.Extends (t.mergeArgument id info).1 := by
  unfold Tree.mergeArgument
  dsimp only
  split
  · rename_i old hold
    have hdetail : (t.node (t.primary id)).detail.Extends (.argument (old.merge info).1) := by
      rw [hold]
      exact old.extends_merge info
    exact extends_modify { Node.Extends.refl _ with detail := hdetail }
  · exact Extends.refl t

theorem sameLinks_mergeArgument (t : Tree) (id : Nat) (info : ArgumentInfo) (n : Nat) :
    SameLinks (t.node n) ((t.mergeArgument id info).1.node n) := by
  unfold mergeArgument
  dsimp only
  split
  · refine sameLinks_modify ?_ n
    exact fun _ => ⟨rfl, rfl, rfl, rfl, rfl, rfl⟩
  · exact ⟨rfl, rfl, rfl, rfl, rfl, rfl⟩

@[simp] theorem size_mergeArgument (t : Tree) (id : Nat) (info : ArgumentInfo) :
    (t.mergeArgument id info).1.size = t.size := by
  unfold mergeArgument
  dsimp only
  split
  · exact size_modify _ _ _
  · rfl

theorem origin_mergeArgument (t : Tree) (id : Nat) (info : ArgumentInfo) (n : Nat) :
    ((t.mergeArgument id info).1.node n).origin = (t.node n).origin := by
  unfold mergeArgument
  dsimp only
  split
  · rw [node_modify]
    split <;> rfl
  · rfl

theorem bindings_mergeArgument (t : Tree) (id : Nat) (info : ArgumentInfo) (n : Nat) :
    ((t.mergeArgument id info).1.node n).bindings = (t.node n).bindings := by
  unfold mergeArgument
  dsimp only
  split
  · rw [node_modify]
    split <;> rfl
  · rfl

theorem WellFormed.bind (ht : t.WellFormed) (id binding : Nat) :
    (t.bind id binding).WellFormed :=
  ht.modify (fun _ => ⟨rfl, rfl, rfl, rfl, rfl, rfl⟩) (Or.inl rfl)

theorem extends_bind (t : Tree) (id binding : Nat) : t.Extends (t.bind id binding) :=
  extends_modify { Node.Extends.refl _ with bindings := List.prefix_append _ _ }

/-- A handle is put behind those on the node that it is for. -/
theorem bindings_bind {target : Nat} (hlt : target < t.size)
    (hnone : (t.node target).aliasOf = none) (binding n : Nat) :
    ((t.bind target binding).node n).bindings =
      (t.node n).bindings ++ if n = target then [binding] else [] := by
  rw [bind, node_modify, primary_of_aliasOf_eq_none hnone]
  by_cases hn : n = target
  · rw [if_pos ⟨hn, by omega⟩, if_pos hn]
  · rw [if_neg fun h => hn h.1, if_neg hn, List.append_nil]

end Operations

end Tree

end CommandTree
