import CommandTree.Assembly.Place
import CommandTree.Proofs.Tree.WellFormed

/-!
# Alias entries mirror their nodes

The operations of a tree can be called in any order on nodes that are there. A node may be
attached below any other, even below itself, and a new node may take the place of a sibling,
so such a tree (`Built`) need not be well formed. Its alias entries are right all the same
(`Mirrored`): each has the parent and the children of the node it stands for, that node is no
alias entry, and the alias entries of a node are named by its aliases, in order.

A new node comes in two steps. First it is appended, and if it is an alias entry the node it
stands for takes note of it (`Appended`). Then it is attached, which gives one more child to a
node and to all its alias entries, or to none of them (`Mirrored.attach`).
-/

namespace CommandTree.Tree

/-- Each alias entry mirrors the node it stands for. -/
structure Mirrored (t : Tree) : Prop where
  parent : ∀ {id p}, (t.node id).parent = some p → p < id ∧ (t.node p).aliasOf = none
  entry : ∀ {p e}, e ∈ (t.node p).entries → e < t.size ∧ (t.node e).aliasOf = some p
  mirror : ∀ {e p}, (t.node e).aliasOf = some p →
    e ∈ (t.node p).entries ∧ (t.node p).aliasOf = none ∧
      (t.node e).parent = (t.node p).parent ∧ (t.node e).children = (t.node p).children
  names : ∀ p, (t.node p).entries.map (fun e => (t.node e).identity) =
    (t.node p).aliases.map Identity.literal

theorem Mirrored.empty : empty.Mirrored := by
  constructor <;> simp [node_empty, Node.root]

namespace Mirrored

variable {t : Tree} (ht : t.Mirrored)

include ht

theorem aliasOf_lt {e p : Nat} (h : (t.node e).aliasOf = some p) : e < t.size ∧ p < t.size := by
  have hmem := (ht.mirror h).1
  exact ⟨(ht.entry hmem).1, lt_size_of_ne_root fun heq => by simp [heq, Node.root] at hmem⟩

theorem aliasOf_primary (id : Nat) : (t.node (t.primary id)).aliasOf = none := by
  cases h : (t.node id).aliasOf with
  | none => rw [primary_of_aliasOf_eq_none h, h]
  | some p => simpa [primary, h] using (ht.mirror h).2.1

/-- An alias entry is a literal with an alias of its node as the name. -/
theorem identity_of_aliasOf {e p : Nat} (h : (t.node e).aliasOf = some p) :
    ∃ word ∈ (t.node p).aliases, (t.node e).identity = .literal word := by
  have hmem : (t.node e).identity ∈ (t.node p).entries.map fun e => (t.node e).identity :=
    List.mem_map_of_mem (ht.mirror h).1
  rw [ht.names] at hmem
  obtain ⟨word, hword, heq⟩ := List.mem_map.mp hmem
  exact ⟨word, hword, heq.symm⟩

/-- Each alias of a node has an alias entry. -/
theorem exists_entry {p : Nat} {word : String} (h : word ∈ (t.node p).aliases) :
    ∃ e, (t.node e).aliasOf = some p ∧ (t.node e).identity = .literal word := by
  have hmem : Identity.literal word ∈ (t.node p).aliases.map Identity.literal :=
    List.mem_map_of_mem h
  rw [← ht.names] at hmem
  obtain ⟨e, he, heq⟩ := List.mem_map.mp hmem
  exact ⟨e, (ht.entry he).2, heq⟩

/-- Alias entries are literals. -/
theorem kind_of_aliasOf {e p : Nat} (h : (t.node e).aliasOf = some p) :
    (t.node e).identity.kind = .literal := by
  obtain ⟨word, -, hword⟩ := ht.identity_of_aliasOf h
  rw [hword]
  rfl

/-- A node takes a new child together with its alias entries. -/
theorem shares_iff {q e p : Nat} (hq : (t.node q).aliasOf = none)
    (h : (t.node e).aliasOf = some p) : t.Shares q e ↔ t.Shares q p := by
  constructor
  · rintro (rfl | he)
    · simp [hq] at h
    · have hp := (ht.entry he).2
      exact Or.inl (Option.some.inj (h.symm.trans hp))
  · rintro (rfl | hp)
    · exact Or.inr (ht.mirror h).1
    · have hnone := (ht.mirror h).2.1
      rw [(ht.entry hp).2] at hnone
      cases hnone

/-! ## Attaching and changing nodes -/

/-- Any node may be attached below any other. -/
theorem attach (parent child : Nat) : (t.attach parent child).Mirrored := by
  have hnode := t.node_attach_primary parent child
  have hlinks : ∀ id, ((t.attach parent child).node id).identity = (t.node id).identity ∧
      ((t.attach parent child).node id).parent = (t.node id).parent ∧
      ((t.attach parent child).node id).aliasOf = (t.node id).aliasOf ∧
      ((t.attach parent child).node id).entries = (t.node id).entries ∧
      ((t.attach parent child).node id).aliases = (t.node id).aliases := by
    intro id
    rw [hnode]
    split <;> exact ⟨rfl, rfl, rfl, rfl, rfl⟩
  constructor
  case parent =>
    intro id p hp
    rw [(hlinks id).2.1] at hp
    rw [(hlinks p).2.2.1]
    exact ht.parent hp
  case entry =>
    intro p e he
    rw [(hlinks p).2.2.2.1] at he
    rw [(hlinks e).2.2.1, size_attach]
    exact ht.entry he
  case mirror =>
    intro e p h
    rw [(hlinks e).2.2.1] at h
    obtain ⟨hmem, hnone, hparent, hchildren⟩ := ht.mirror h
    have hlt := ht.aliasOf_lt h
    have hshares := ht.shares_iff (ht.aliasOf_primary parent) h
    rw [(hlinks p).2.2.2.1, (hlinks p).2.2.1, (hlinks e).2.1, (hlinks p).2.1]
    refine ⟨hmem, hnone, hparent, ?_⟩
    rw [hnode e, hnode p]
    by_cases hs : t.Shares (t.primary parent) p
    · rw [if_pos ⟨hshares.mpr hs, hlt.1⟩, if_pos ⟨hs, hlt.2⟩, hchildren]
    · rw [if_neg fun h => hs (hshares.mp h.1), if_neg fun h => hs h.1, hchildren]
  case names =>
    intro p
    simp only [hlinks]
    exact ht.names p

/-- A change of one node that keeps its links. -/
theorem modify {target : Nat} {f : Node → Node} (hf : ∀ n, SameLinks n (f n)) :
    (t.modify target f).Mirrored := by
  have hlinks : ∀ id, SameLinks (t.node id) ((t.modify target f).node id) :=
    sameLinks_modify hf
  constructor
  case parent =>
    intro id p hp
    rw [(hlinks id).parent] at hp
    rw [(hlinks p).aliasOf]
    exact ht.parent hp
  case entry =>
    intro p e he
    rw [(hlinks p).entries] at he
    rw [(hlinks e).aliasOf, size_modify]
    exact ht.entry he
  case mirror =>
    intro e p h
    rw [(hlinks e).aliasOf] at h
    rw [(hlinks p).entries, (hlinks p).aliasOf, (hlinks e).parent, (hlinks p).parent,
      (hlinks e).children, (hlinks p).children]
    exact ht.mirror h
  case names =>
    intro p
    simp only [(hlinks _).entries, (hlinks _).aliases, (hlinks _).identity]
    exact ht.names p

theorem mergeArgument (id : Nat) (info : ArgumentInfo) :
    (t.mergeArgument id info).1.Mirrored := by
  unfold Tree.mergeArgument
  dsimp only
  split
  · exact ht.modify fun _ => ⟨rfl, rfl, rfl, rfl, rfl, rfl⟩
  · exact ht

theorem bind (id binding : Nat) : (t.bind id binding).Mirrored :=
  ht.modify fun _ => ⟨rfl, rfl, rfl, rfl, rfl, rfl⟩

end Mirrored

/-! ## Appending a node -/

/-- The tree `t'` is `t` with the node `new` at its end. If `new` is an alias entry, the node
that it stands for has noted its handle and its name. -/
structure Appended (t : Tree) (new : Node) (t' : Tree) : Prop where
  size : t'.size = t.size + 1
  node : ∀ id, t'.node id =
    if id = t.size then new
    else if new.aliasOf = some id then
      { t.node id with
        entries := (t.node id).entries ++ [t.size]
        aliases := (t.node id).aliases ++ [new.identity.name] }
    else t.node id

/-- What may be appended: a command, or a literal with the parent and the children of the node
that it stands for. -/
structure Appendable (t : Tree) (new : Node) : Prop where
  parent : ∃ p, new.parent = some p ∧ p < t.size ∧ (t.node p).aliasOf = none
  aliases : new.aliases = []
  entries : new.entries = []
  stands : ∀ {id}, new.aliasOf = some id → id < t.size ∧ (t.node id).aliasOf = none ∧
    (t.node id).parent = new.parent ∧ (t.node id).children = new.children ∧
    new.identity.kind = .literal

namespace Appended

variable {t t' : Tree} {new : Node} (h : t.Appended new t')

include h

theorem node_size : t'.node t.size = new := by
  rw [h.node, if_pos rfl]

/-- The other nodes keep their links. -/
theorem node_of_ne {id : Nat} (hid : id ≠ t.size) :
    (t'.node id).identity = (t.node id).identity ∧ (t'.node id).parent = (t.node id).parent ∧
      (t'.node id).aliasOf = (t.node id).aliasOf ∧
      (t'.node id).children = (t.node id).children := by
  rw [h.node, if_neg hid]
  split <;> exact ⟨rfl, rfl, rfl, rfl⟩

/-- A new alias entry changes the node that it stands for only. -/
theorem node_of_ne_aliasOf {id : Nat} (hid : id ≠ t.size) (hne : new.aliasOf ≠ some id) :
    t'.node id = t.node id := by
  rw [h.node, if_neg hid, if_neg hne]

/-- The node that an alias entry stands for notes it last. -/
theorem node_of_aliasOf {id : Nat} (hid : id ≠ t.size) (hal : new.aliasOf = some id) :
    (t'.node id).entries = (t.node id).entries ++ [t.size] ∧
      (t'.node id).aliases = (t.node id).aliases ++ [new.identity.name] := by
  rw [h.node, if_neg hid, if_pos hal]
  exact ⟨rfl, rfl⟩

theorem mem_entries {p e : Nat} (hp : p ≠ t.size) (he : e ∈ (t'.node p).entries) :
    e ∈ (t.node p).entries ∨ e = t.size ∧ new.aliasOf = some p := by
  by_cases hal : new.aliasOf = some p
  · rw [(h.node_of_aliasOf hp hal).1] at he
    simpa [hal] using he
  · rw [h.node_of_ne_aliasOf hp hal] at he
    exact Or.inl he

theorem mem_entries_of_mem {p e : Nat} (hp : p ≠ t.size) (he : e ∈ (t.node p).entries) :
    e ∈ (t'.node p).entries := by
  by_cases hal : new.aliasOf = some p
  · rw [(h.node_of_aliasOf hp hal).1]
    exact List.mem_append_left _ he
  · rwa [h.node_of_ne_aliasOf hp hal]

end Appended

/-- A new node keeps alias entries mirrored. Neither an alias entry that was there nor the node that
it stands for is the new one. -/
theorem Mirrored.of_appended {t t' : Tree} {new : Node} (ht : t.Mirrored)
    (hnew : t.Appendable new) (h : t.Appended new t') : t'.Mirrored := by
  obtain ⟨q, hq, hqlt, hqnone⟩ := hnew.parent
  have hold : ∀ {p e}, e ∈ (t.node p).entries → e ≠ t.size ∧ p ≠ t.size := fun he => by
    have := ht.aliasOf_lt (ht.entry he).2
    omega
  constructor
  case parent =>
    intro id p hp
    by_cases hid : id = t.size
    · subst hid
      rw [h.node_size, hq] at hp
      obtain rfl := Option.some.inj hp
      rw [(h.node_of_ne (Nat.ne_of_lt hqlt)).2.2.1]
      exact ⟨hqlt, hqnone⟩
    · rw [(h.node_of_ne hid).2.1] at hp
      have hlt : id < t.size := lt_size_of_ne_root fun heq => by simp [heq, Node.root] at hp
      obtain ⟨hpid, hnone⟩ := ht.parent hp
      rw [(h.node_of_ne (by omega)).2.2.1]
      exact ⟨hpid, hnone⟩
  case entry =>
    intro p e he
    by_cases hp : p = t.size
    · subst hp
      simp [h.node_size, hnew.entries] at he
    · rw [h.size]
      rcases h.mem_entries hp he with he | ⟨rfl, hal⟩
      · obtain ⟨hlt, hal⟩ := ht.entry he
        rw [(h.node_of_ne (hold he).1).2.2.1]
        exact ⟨by omega, hal⟩
      · rw [h.node_size]
        exact ⟨by omega, hal⟩
  case mirror =>
    intro e p hal
    by_cases he : e = t.size
    · subst he
      rw [h.node_size] at hal ⊢
      obtain ⟨hlt, hnone, hparent, hchildren, -⟩ := hnew.stands hal
      have hp : p ≠ t.size := Nat.ne_of_lt hlt
      obtain ⟨-, h1, h2, h3⟩ := h.node_of_ne hp
      rw [(h.node_of_aliasOf hp hal).1, h1, h2, h3]
      exact ⟨by simp, hnone, hparent.symm, hchildren.symm⟩
    · obtain ⟨-, e1, e2, e3⟩ := h.node_of_ne he
      rw [e2] at hal
      obtain ⟨hmem, hnone, hparent, hchildren⟩ := ht.mirror hal
      have hp := (hold hmem).2
      obtain ⟨-, h1, h2, h3⟩ := h.node_of_ne hp
      rw [e1, e3, h1, h2, h3]
      exact ⟨h.mem_entries_of_mem hp hmem, hnone, hparent, hchildren⟩
  case names =>
    intro p
    by_cases hp : p = t.size
    · subst hp
      simp [h.node_size, hnew.entries, hnew.aliases]
    · have hkept : (t.node p).entries.map (fun e => (t'.node e).identity) =
          (t.node p).aliases.map Identity.literal := by
        rw [← ht.names]
        exact List.map_congr_left fun e he => (h.node_of_ne (hold he).1).1
      by_cases hal : new.aliasOf = some p
      · obtain ⟨hentries, haliases⟩ := h.node_of_aliasOf hp hal
        have hlit : new.identity = .literal new.identity.name := by
          rw [Identity.literal, ← (hnew.stands hal).2.2.2.2]
        rw [hentries, haliases, List.map_append, List.map_append, hkept, List.map_singleton,
          List.map_singleton, h.node_size, ← hlit]
      · rw [h.node_of_ne_aliasOf hp hal]
        exact hkept

/-- A new command, in the place of a sibling or behind all of them. -/
theorem Mirrored.insert {t : Tree} (ht : t.Mirrored) {parent : Nat} (hlt : parent < t.size)
    (identity : Identity) (detail : Detail) (origin : Option Element) :
    (t.insert parent identity detail origin).Mirrored := by
  have hprimary : t.primary parent < t.size := by
    cases h : (t.node parent).aliasOf with
    | none => rwa [primary_of_aliasOf_eq_none h]
    | some p => simpa [primary, h] using (ht.aliasOf_lt h).2
  have hnew : t.Appendable
      { identity, detail, parent := some (t.primary parent), origin } :=
    ⟨⟨_, rfl, hprimary, ht.aliasOf_primary parent⟩, rfl, rfl, fun h => by cases h⟩
  exact (ht.of_appended hnew ⟨size_push _ _, fun id => by simp [node_push]⟩).attach _ _

/-- A new alias entry beside the node that it stands for. -/
theorem Mirrored.pushEntry {t : Tree} (ht : t.Mirrored) {id parent : Nat}
    (hid : (t.node id).aliasOf = none) (hparent : (t.node id).parent = some parent)
    (word : String) : (t.pushEntry id parent word).Mirrored := by
  have hlt : id < t.size := lt_size_of_ne_root fun heq => by simp [heq, Node.root] at hparent
  obtain ⟨hplt, hpnone⟩ := ht.parent hparent
  have hnew : t.Appendable (t.aliasEntry id parent word) := by
    refine ⟨⟨parent, rfl, by omega, hpnone⟩, rfl, rfl, fun h => ?_⟩
    obtain rfl := Option.some.inj h
    exact ⟨hlt, hid, hparent, rfl, rfl⟩
  rw [pushEntry_eq]
  refine (ht.of_appended hnew ⟨size_enlist _ _ _ _, fun k => ?_⟩).attach _ _
  rw [node_enlist hlt]
  simp [aliasEntry, Identity.literal, eq_comm]

/-! ## Trees that are built by calls -/

/-- A call of an operation. -/
inductive Call
  | insert (parent : Nat) (identity : Identity) (detail : Detail) (origin : Option Element)
  | attach (parent child : Nat)
  | addAlias (id : Nat) (word : String)
  | mergeArgument (id : Nat) (info : ArgumentInfo)

/-- The nodes that a call names. -/
def Call.handles : Call → List Nat
  | .insert parent _ _ _ => [parent]
  | .attach parent child => [parent, child]
  | .addAlias id _ => [id]
  | .mergeArgument id _ => [id]

/-- The tree after a call, also after one that ends in a conflict. -/
def call (t : Tree) : Call → Tree
  | .insert parent identity detail origin => t.insert parent identity detail origin
  | .attach parent child => t.attach parent child
  | .addAlias id word => (t.addAlias id word).1
  | .mergeArgument id info => (t.mergeArgument id info).1

/-- The trees that calls on nodes that are there can build. -/
inductive Built : Tree → Prop
  | empty : Built empty
  | call {t : Tree} (h : Built t) {c : Call} (hc : ∀ id ∈ c.handles, id < t.size) :
      Built (t.call c)

/-- A name that a node has is not given again. -/
theorem addAlias_of_mem {t : Tree} {id : Nat} {word : String} (hid : (t.node id).aliasOf = none)
    (h : word ∈ (t.node id).aliases) : t.addAlias id word = (t, .ok false) := by
  unfold addAlias
  rw [primary_of_aliasOf_eq_none hid, if_pos h]

/-- What a call for an alias does: nothing if the alias is there or the node is a root, nothing
if a sibling has the name, and otherwise it makes an alias entry. -/
theorem addAlias_cases (t : Tree) (id : Nat) (word : String) :
    (t.addAlias id word = (t, .ok false) ∧
      (word ∈ (t.node (t.primary id)).aliases ∨ (t.node (t.primary id)).parent = none)) ∨
    (∃ parent existing, (t.node (t.primary id)).parent = some parent ∧
      t.find parent word = some existing ∧
      t.addAlias id word = (t, .error (.takenName word (t.node existing).identity))) ∨
    ∃ parent, (t.node (t.primary id)).parent = some parent ∧ t.find parent word = none ∧
      t.addAlias id word = (t.pushEntry (t.primary id) parent word, .ok true) := by
  by_cases hmem : word ∈ (t.node (t.primary id)).aliases
  · exact Or.inl ⟨if_pos hmem, Or.inl hmem⟩
  · cases hparent : (t.node (t.primary id)).parent with
    | none => exact Or.inl ⟨by simp [addAlias, hmem, hparent], Or.inr rfl⟩
    | some parent =>
      refine Or.inr ?_
      cases hfind : t.find parent word with
      | some existing =>
        exact Or.inl ⟨parent, existing, rfl, hfind, by simp [addAlias, hmem, hparent, hfind]⟩
      | none => exact Or.inr ⟨parent, rfl, hfind, by simp [addAlias, hmem, hparent, hfind]⟩

theorem Mirrored.call {t : Tree} (ht : t.Mirrored) {c : Call}
    (hc : ∀ id ∈ c.handles, id < t.size) : (t.call c).Mirrored := by
  cases c with
  | insert parent identity detail origin =>
    exact ht.insert (hc parent (List.mem_singleton.mpr rfl)) identity detail origin
  | attach parent child => exact ht.attach parent child
  | addAlias id word =>
    rcases t.addAlias_cases id word with ⟨h, -⟩ | ⟨_, _, -, -, h⟩ | ⟨parent, hparent, -, h⟩
    · simpa [Tree.call, h] using ht
    · simpa [Tree.call, h] using ht
    · simpa [Tree.call, h] using ht.pushEntry (ht.aliasOf_primary id) hparent word
  | mergeArgument id info => exact ht.mergeArgument id info

/-- In a tree that calls have built, alias entries are mirrored. -/
theorem Built.mirrored {t : Tree} (h : t.Built) : t.Mirrored := by
  induction h with
  | empty => exact .empty
  | call _ hc ih => exact ih.call hc

/-- In a tree that calls have built, an alias entry has the parent and the children of the node
that it stands for, which is no alias entry itself and has it among its alias entries. These are
the literals named by its aliases, in order. A call for an alias that finds it there, or that
ends in a conflict, changes nothing. -/
theorem Built.entries_mirror {t : Tree} (h : t.Built) :
    (∀ e p, (t.node e).aliasOf = some p →
      (t.node p).aliasOf = none ∧ (t.node e).parent = (t.node p).parent ∧
        e ∈ (t.node p).entries ∧ (t.node e).children = (t.node p).children) ∧
    (∀ p, (t.node p).entries.map (fun e => (t.node e).identity) =
      (t.node p).aliases.map Identity.literal) ∧
    ∀ id word, (t.addAlias id word).2 ≠ .ok true →
      (t.addAlias id word).1 = t ∧ t.call (.addAlias id word) = t ∧
        ∀ (env : Environment) (site : Element) (text : String) (token : Namespace.Token),
          env.tree = t → (Environment.addAlias site text token id env word).tree = t := by
  have ht := h.mirrored
  refine ⟨fun e p hal => ?_, ht.names, fun id word hanswer => ?_⟩
  · obtain ⟨hmem, hnone, hparent, hchildren⟩ := ht.mirror hal
    exact ⟨hnone, hparent, hmem, hchildren⟩
  · rcases t.addAlias_cases id word with ⟨h, -⟩ | ⟨_, _, -, -, h⟩ | ⟨_, -, -, h⟩
    · refine ⟨by simp [h], by simp [Tree.call, h], ?_⟩
      rintro env site text token rfl
      simp [Environment.addAlias, h]
    · refine ⟨by simp [h], by simp [Tree.call, h], ?_⟩
      rintro env site text token rfl
      simp [Environment.addAlias, h, Environment.reportConflict, Environment.report]
    · rw [h] at hanswer
      exact absurd rfl hanswer

/-- A child that came through the alias entry 2 of the node 1, the root attached below it, and
another child in its place. -/
def tangled : Tree :=
  (((((empty.call (.insert 0 (.literal "c") .literal none)).call (.addAlias 1 "c1")).call
    (.insert 2 (.literal "d") .literal none)).call (.attach 3 0)).call
    (.insert 1 (.literal "d") .literal none)).call (.addAlias 4 "d1")

theorem tangled_entries_mirror :
    tangled.Built ∧ (tangled.node 2).aliasOf = some 1 ∧
      (tangled.node 1).children = [(.literal "d", 4), (.literal "d1", 5)] ∧
      (tangled.node 2).children = (tangled.node 1).children := by
  have hbuilt : tangled.Built :=
    .call (.call (.call (.call (.call (.call .empty (by decide)) (by decide +kernel))
      (by decide +kernel)) (by decide +kernel)) (by decide +kernel)) (by decide +kernel)
  have halias : (tangled.node 2).aliasOf = some 1 := by decide +kernel
  exact ⟨hbuilt, halias, by decide +kernel, (hbuilt.entries_mirror.1 2 1 halias).2.2.2⟩

end CommandTree.Tree
