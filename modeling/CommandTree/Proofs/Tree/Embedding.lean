import CommandTree.Proofs.Tree.Paths
import Mathlib.Data.List.Sort

/-!
# Trees inside of trees

A tree `part` is *embedded* in a tree `whole` (`Tree.Embeds`) if a renaming of handles takes each of
its nodes to one that is the same but for the handles: it has the renamed parent, children, alias
entries and so on, and no others. Only the root is shared. Of its children in `whole`, those with
certain names are the children in `part`.

The renaming keeps the order of handles, so what is read node by node in `part` is read in the same
order in `whole`. Handles that no node of `part` is renamed to are *outside*, and so are the links
of the nodes there (`Embeds.outside_of_parent`, `Embeds.outside_primary`).

Growing keeps an embedding, inside (`Embeds.graft`) and outside (`Embeds.graft_outside`).
-/

namespace CommandTree

namespace Node

/-- The node with its handles renamed and without bindings. -/
def image (r : Nat → Nat) (n : Node) : Node :=
  { n with
    parent := n.parent.map r
    children := n.children.map fun e => (e.1, r e.2)
    aliasOf := n.aliasOf.map r
    entries := n.entries.map r
    bindings := [] }

end Node

/-! ## Looking up among renamed children -/

namespace Children

/-- Renaming the handles of children keeps their identities. -/
theorem lookup_map (cs : Children) (r : Nat → Nat) (identity : Identity) :
    (cs.map fun e => (e.1, r e.2)).lookup identity = (cs.lookup identity).map r := by
  induction cs with
  | nil => rfl
  | cons e rest ih =>
    rw [List.map_cons, List.lookup_cons, List.lookup_cons, ih]
    split <;> rfl

/-- Among the children with certain names, such a name is looked up as among all. -/
theorem lookup_filter (cs : Children) {names : List String} {identity : Identity}
    (h : identity.name ∈ names) :
    (cs.filter fun e => e.1.name ∈ names).lookup identity = cs.lookup identity := by
  induction cs with
  | nil => rfl
  | cons e rest ih =>
    by_cases hname : e.1.name ∈ names
    · rw [List.filter_cons_of_pos (by simpa using hname), List.lookup_cons, List.lookup_cons, ih]
    · have hne : (identity == e.1) = false := by
        rw [beq_eq_false_iff_ne]
        rintro rfl
        exact hname h
      rw [List.filter_cons_of_neg (by simpa using hname), List.lookup_cons, hne, ih]

end Children

namespace Tree

/-- The renaming `r` takes the nodes of `part` to nodes of `whole`. The children of the root with
these names are those of `part`. -/
structure Embeds (names : List String) (r : Nat → Nat) (part whole : Tree) : Prop where
  root : r 0 = 0
  mono : ∀ {a b}, a < b → b < part.size → r a < r b
  lt : ∀ {n}, n < part.size → r n < whole.size
  node : ∀ {n}, 0 < n → n < part.size → (whole.node (r n)).bare = (part.node n).image r
  top : ((whole.node 0).children.filter fun e => e.1.name ∈ names) =
    (part.node 0).children.map fun e => (e.1, r e.2)

/-- No node is renamed to the handle `id`. -/
def Outside (part : Tree) (r : Nat → Nat) (id : Nat) : Prop :=
  ∀ n < part.size, r n ≠ id

theorem Embeds.empty (names : List String) : empty.Embeds names (fun n => n) empty := by
  refine ⟨rfl, fun hlt _ => hlt, id, ?_, ?_⟩
  · intro n hpos hlt
    rw [size_empty] at hlt
    omega
  · simp [node_empty, Node.root]

namespace Embeds

variable {names : List String} {r : Nat → Nat} {part whole : Tree}
  (h : part.Embeds names r whole)

include h

theorem inj {a b : Nat} (ha : a < part.size) (hb : b < part.size) (heq : r a = r b) : a = b := by
  rcases Nat.lt_trichotomy a b with hlt | rfl | hlt
  · have := h.mono hlt hb
    omega
  · rfl
  · have := h.mono hlt ha
    omega

theorem pos {n : Nat} (hpos : 0 < n) (hlt : n < part.size) : 0 < r n := by
  have := h.mono hpos hlt
  rwa [h.root] at this

theorem eq_zero_iff {n : Nat} (hlt : n < part.size) : r n = 0 ↔ n = 0 := by
  constructor
  · intro heq
    by_contra hne
    have := h.pos (Nat.pos_of_ne_zero hne) hlt
    omega
  · rintro rfl
    exact h.root

section Node

variable {n : Nat} (hpos : 0 < n) (hlt : n < part.size)

include hpos hlt

theorem identity : (whole.node (r n)).identity = (part.node n).identity :=
  (congrArg Node.identity (h.node hpos hlt) :)

theorem detail : (whole.node (r n)).detail = (part.node n).detail :=
  (congrArg Node.detail (h.node hpos hlt) :)

theorem aliases : (whole.node (r n)).aliases = (part.node n).aliases :=
  (congrArg Node.aliases (h.node hpos hlt) :)

theorem origin : (whole.node (r n)).origin = (part.node n).origin :=
  (congrArg Node.origin (h.node hpos hlt) :)

theorem children :
    (whole.node (r n)).children = (part.node n).children.map fun e => (e.1, r e.2) :=
  (congrArg Node.children (h.node hpos hlt) :)

end Node

variable (hpart : part.WellFormed) (hwhole : whole.WellFormed)

include hpart hwhole

theorem parent {n : Nat} (hlt : n < part.size) :
    (whole.node (r n)).parent = (part.node n).parent.map r := by
  rcases Nat.eq_zero_or_pos n with rfl | hpos
  · rw [h.root, hpart.root_parent, hwhole.root_parent]
    rfl
  · exact congrArg Node.parent (h.node hpos hlt)

theorem aliasOf {n : Nat} (hlt : n < part.size) :
    (whole.node (r n)).aliasOf = (part.node n).aliasOf.map r := by
  rcases Nat.eq_zero_or_pos n with rfl | hpos
  · rw [h.root, hpart.root_aliasOf, hwhole.root_aliasOf]
    rfl
  · exact congrArg Node.aliasOf (h.node hpos hlt)

theorem entries {n : Nat} (hlt : n < part.size) :
    (whole.node (r n)).entries = (part.node n).entries.map r := by
  rcases Nat.eq_zero_or_pos n with rfl | hpos
  · rw [h.root, hpart.entries_root, hwhole.entries_root]
    rfl
  · exact congrArg Node.entries (h.node hpos hlt)

theorem primary {n : Nat} (hlt : n < part.size) : whole.primary (r n) = r (part.primary n) := by
  unfold Tree.primary
  rw [h.aliasOf hpart hwhole hlt]
  cases (part.node n).aliasOf <;> rfl

/-- An identity leads to the renamed child. -/
theorem child {n : Nat} (hlt : n < part.size) {identity : Identity}
    (htop : n = 0 → identity.name ∈ names) :
    whole.child (r n) identity = (part.child n identity).map r := by
  unfold Tree.child
  rw [h.primary hpart hwhole hlt]
  rcases Nat.eq_zero_or_pos (part.primary n) with hzero | hpos
  · have hn : n = 0 := by
      by_contra hne
      have hpos := hpart.primary_pos (Nat.pos_of_ne_zero hne)
      omega
    rw [hzero, h.root, ← Children.lookup_filter _ (htop hn), h.top, Children.lookup_map]
  · rw [h.children hpos (hpart.primary_lt hlt), Children.lookup_map]

/-- A name is looked up in both trees alike, at the root if it is one of the names. -/
theorem find {n : Nat} (hlt : n < part.size) {name : String} (htop : n = 0 → name ∈ names) :
    whole.find (r n) name = (part.find n name).map r := by
  have hchild : ∀ kind, whole.child (r n) ⟨kind, name⟩ = (part.child n ⟨kind, name⟩).map r :=
    fun kind => h.child hpart hwhole hlt htop
  unfold Tree.find
  rw [Identity.literal, Identity.argument, hchild, hchild]
  cases part.child n ⟨.literal, name⟩ <;> rfl

theorem identities {n : Nat} (hlt : n < part.size) :
    whole.identities (r n) = part.identities n := by
  induction n using Nat.strongRecOn with
  | ind n ih =>
    rcases Nat.eq_zero_or_pos n with rfl | hpos
    · rw [h.root, identities_zero, identities_zero]
    · obtain ⟨p, hp, hpn, -⟩ := hpart.parent hpos hlt
      have hparent : (whole.node (r n)).parent = some (r p) := by
        rw [h.parent hpart hwhole hlt, hp]
        rfl
      rw [hpart.identities_of_parent hp, hwhole.identities_of_parent hparent,
        ih p hpn (Nat.lt_trans hpn hlt), h.identity hpos hlt]

theorem path {n : Nat} (hlt : n < part.size) : whole.path (r n) = part.path n := by
  unfold Tree.path
  rw [h.identities hpart hwhole hlt]

/-! ### Outside -/

/-- Below a node that is outside all nodes are. -/
theorem outside_of_parent {id p : Nat} (hparent : (whole.node id).parent = some p)
    (hp : part.Outside r p) : part.Outside r id := by
  rintro n hlt rfl
  rw [h.parent hpart hwhole hlt, Option.map_eq_some_iff] at hparent
  obtain ⟨q, hq, heq⟩ := hparent
  exact hp q (Nat.lt_trans (hpart.parent_lt hq).2.2.1 hlt) heq

/-- An alias entry is outside together with its node. -/
theorem outside_primary {id : Nat} (hid : part.Outside r id) :
    part.Outside r (whole.primary id) := by
  cases halias : (whole.node id).aliasOf with
  | none => rwa [primary_of_aliasOf_eq_none halias]
  | some p =>
    have hprimary : whole.primary id = p := by simp [Tree.primary, halias]
    rw [hprimary]
    rintro n hlt rfl
    have hmem := (hwhole.mirror halias).1
    rw [h.entries hpart hwhole hlt] at hmem
    obtain ⟨e, he, heq⟩ := List.mem_map.mp hmem
    exact hid e (hpart.entry he).1 heq

/-- A child of the root with another name is outside. -/
theorem outside_of_top {id : Nat} (hparent : (whole.node id).parent = some 0)
    (hname : (whole.node id).identity.name ∉ names) : part.Outside r id := by
  rintro n hlt rfl
  rw [h.parent hpart hwhole hlt, Option.map_eq_some_iff] at hparent
  obtain ⟨p, hp, heq⟩ := hparent
  obtain ⟨hpos, -, hpn, -⟩ := hpart.parent_lt hp
  obtain rfl := (h.eq_zero_iff (Nat.lt_trans hpn hlt)).mp heq
  have hmem : ((part.node n).identity, r n) ∈
      (part.node 0).children.map fun e => (e.1, r e.2) :=
    List.mem_map.mpr ⟨_, hpart.listed hp, rfl⟩
  rw [← h.top, List.mem_filter] at hmem
  rw [h.identity hpos hlt] at hname
  exact hname (by simpa using hmem.2)

end Embeds

/-! ## Growing -/

/-- The links of a node lead to nodes that are there. -/
theorem WellFormed.image_congr {t : Tree} (ht : t.WellFormed) {r r' : Nat → Nat}
    (h : ∀ n < t.size, r' n = r n) (id : Nat) : (t.node id).image r' = (t.node id).image r := by
  have hparent : (t.node id).parent.map r' = (t.node id).parent.map r := by
    refine Option.map_congr fun p hp => h p ?_
    have := ht.parent_lt hp
    omega
  have hchildren : (t.node id).children.map (fun e => (e.1, r' e.2)) =
      (t.node id).children.map fun e => (e.1, r e.2) := by
    refine List.map_congr_left fun e he => ?_
    rw [h e.2 (ht.lt_of_mem_children he)]
  have haliasOf : (t.node id).aliasOf.map r' = (t.node id).aliasOf.map r :=
    Option.map_congr fun p hp => h p (ht.aliasOf_lt hp)
  have hentries : (t.node id).entries.map r' = (t.node id).entries.map r :=
    List.map_congr_left fun e he => h e (ht.entry he).1
  unfold Node.image
  rw [hparent, hchildren, haliasOf, hentries]

/-- The links of a node that may be grafted lead to nodes that are there. -/
theorem Graftable.image_congr {t : Tree} (ht : t.WellFormed) {p : Nat} {new : Node}
    (hnew : t.Graftable p new) {r r' : Nat → Nat} (h : ∀ n < t.size, r' n = r n) :
    new.image r' = new.image r := by
  unfold Node.image
  rw [hnew.parent_eq, hnew.entries, Option.map_some, Option.map_some, h p hnew.parent_lt]
  rcases hnew.stands with ⟨hnone, hnil⟩ | ⟨id, hid, -, hparent, -, hchildren⟩
  · rw [hnone, hnil]
    rfl
  · have heq : (t.node id).children.map (fun e => (e.1, r' e.2)) =
        (t.node id).children.map fun e => (e.1, r e.2) :=
      (congrArg Node.children (ht.image_congr h id) :)
    rw [hid, hchildren, heq, Option.map_some, Option.map_some, h id (ht.parent_lt hparent).2.1]
    rfl

namespace Embeds

variable {names : List String} {r : Nat → Nat} {part part' whole whole' : Tree}
  (h : part.Embeds names r whole)

include h

/-- A change that the embedding does not see. -/
theorem congr (hsize : part'.size = part.size) (hsize' : whole'.size = whole.size)
    (hpart : ∀ n, (part'.node n).bare = (part.node n).bare)
    (hwhole : ∀ n, (whole'.node n).bare = (whole.node n).bare) : part'.Embeds names r whole' := by
  have himage : ∀ n, (part'.node n).image r = (part.node n).image r := fun n =>
    (congrArg (Node.image r) (hpart n) :)
  have hchildren : ∀ n, (part'.node n).children = (part.node n).children := fun n =>
    (congrArg Node.children (hpart n) :)
  have hchildren' : ∀ n, (whole'.node n).children = (whole.node n).children := fun n =>
    (congrArg Node.children (hwhole n) :)
  refine ⟨h.root, fun hab hb => h.mono hab (hsize ▸ hb), fun hn => hsize' ▸ h.lt (hsize ▸ hn), ?_,
    ?_⟩
  · intro n hpos hlt
    rw [hwhole, himage, h.node hpos (hsize ▸ hlt)]
  · rw [hchildren, hchildren', h.top]

variable (hpart : part.WellFormed) (hwhole : whole.WellFormed)

include hpart hwhole

/-- The nodes that share the children of another are renamed. -/
theorem shares_iff {p n : Nat} (hp : p < part.size) (hn : n < part.size) :
    whole.Shares (r p) (r n) ↔ part.Shares p n := by
  unfold Shares
  rw [h.entries hpart hwhole hp]
  refine or_congr ⟨h.inj hn hp, congrArg r⟩ ⟨fun hmem => ?_, List.mem_map_of_mem⟩
  obtain ⟨e, he, heq⟩ := List.mem_map.mp hmem
  rwa [← h.inj (hpart.entry he).1 hn heq]

section Graft

variable {p : Nat} {new new' : Node} {r' : Nat → Nat} (hnew : part.Graftable p new)
  (hgrafted : part.Grafted p new part') (hgrafted' : whole.Grafted (r p) new' whole')
  (himage : new'.bare = new.image r) (hlast : r' part.size = whole.size)
  (hold : ∀ n < part.size, r' n = r n)

include hnew hgrafted hgrafted' himage hlast hold

/-- The nodes that were there take the new node in both trees or in none. -/
theorem graft_node {n : Nat} (hpos : 0 < n) (hlt : n < part.size) :
    (whole'.node (r n)).bare = (part'.node n).image r' := by
  have hnode := (h.node hpos hlt).trans (hpart.image_congr hold n).symm
  have hentries : (whole.node (r n)).entries = (part.node n).entries.map r' :=
    (congrArg Node.entries hnode :)
  have hidentity : new'.identity = new.identity := (congrArg Node.identity himage :)
  have haliasOf : new'.aliasOf = new.aliasOf.map r := (congrArg Node.aliasOf himage :)
  have hshares := h.shares_iff hpart hwhole hnew.parent_lt hlt
  have hstands : new'.aliasOf = some (r n) ↔ new.aliasOf = some n := by
    rw [haliasOf]
    rcases hnew.stands with ⟨hnone, -⟩ | ⟨id, hid, -, hparent, -⟩
    · simp [hnone]
    · simp only [hid, Option.map_some, Option.some.injEq]
      exact ⟨h.inj (hpart.parent_lt hparent).2.1 hlt, congrArg r⟩
  rw [hgrafted.node, hgrafted'.node, if_neg (Nat.ne_of_lt hlt), if_neg (Nat.ne_of_lt (h.lt hlt))]
  simp only [Node.bare, Node.image, Node.mk.injEq, true_and, hshares, hstands, hidentity]
  refine ⟨h.identity hpos hlt, h.detail hpos hlt, (congrArg Node.parent hnode :), ?_, ?_,
    (congrArg Node.aliasOf hnode :), ?_, h.origin hpos hlt⟩
  · by_cases hs : part.Shares p n
    · -- the root has no alias entries, so it shares its children with no other node
      have hp : 0 < p := Nat.pos_of_ne_zero fun hzero => by
        rcases hs with rfl | hs
        · omega
        · rw [hzero, hpart.entries_root] at hs
          cases hs
      have hchildren := (h.node hp hnew.parent_lt).trans (hpart.image_congr hold p).symm
      rw [if_pos hs, if_pos hs, List.map_append, List.map_singleton, hlast]
      exact congrArg (· ++ _) (congrArg Node.children hchildren :)
    · rw [if_neg hs, if_neg hs]
      exact (congrArg Node.children hnode :)
  · rw [h.aliases hpos hlt]
  · by_cases hs : new.aliasOf = some n
    · rw [if_pos hs, if_pos hs, hentries, List.map_append, List.map_singleton, hlast]
    · rw [if_neg hs, if_neg hs, hentries]

/-- The children of the root are still the same, among the names. -/
theorem graft_top (htop : p = 0 → new.identity.name ∈ names) :
    ((whole'.node 0).children.filter fun e => e.1.name ∈ names) =
      (part'.node 0).children.map fun e => (e.1, r' e.2) := by
  have hidentity : new'.identity = new.identity := (congrArg Node.identity himage :)
  have hchildren : (part.node 0).children.map (fun e => (e.1, r' e.2)) =
      (part.node 0).children.map fun e => (e.1, r e.2) :=
    (congrArg Node.children (hpart.image_congr hold 0) :)
  have hroot : (0 : Nat) ≠ part.size := Nat.ne_of_lt hpart.root_lt
  have hroot' : (0 : Nat) ≠ whole.size := Nat.ne_of_lt hwhole.root_lt
  have hshares := h.shares_iff hpart hwhole hnew.parent_lt hpart.root_lt
  rw [h.root] at hshares
  by_cases hs : part.Shares p 0
  · obtain rfl := hpart.eq_of_shares hpart.root_aliasOf hs
    rw [hgrafted.children_of_shares hroot hs,
      hgrafted'.children_of_shares hroot' (hshares.mpr hs), List.map_append, List.filter_append,
      h.root, h.top, hchildren, hidentity]
    simp [htop rfl, hlast]
  · rw [hgrafted.children_of_not_shares hroot hs,
      hgrafted'.children_of_not_shares hroot' (mt hshares.mp hs), h.top, hchildren]

/-- A node is grafted in both trees, and in `whole` it is the renamed one. -/
theorem graft (htop : p = 0 → new.identity.name ∈ names) : part'.Embeds names r' whole' := by
  have hsize := hgrafted.size
  have hsize' := hgrafted'.size
  refine ⟨by rw [hold 0 hpart.root_lt, h.root], ?_, ?_, ?_,
    h.graft_top hpart hwhole hnew hgrafted hgrafted' himage hlast hold htop⟩
  · intro a b hab hb
    by_cases hbs : b = part.size
    · rw [hbs, hlast, hold a (by omega)]
      exact h.lt (by omega)
    · rw [hold a (by omega), hold b (by omega)]
      exact h.mono hab (by omega)
  · intro n hn
    by_cases hns : n = part.size
    · rw [hns, hlast]
      omega
    · have := h.lt (n := n) (by omega)
      rw [hold n (by omega)]
      omega
  · intro n hpos hn
    by_cases hns : n = part.size
    · rw [hns, hlast, hgrafted.node_size, hgrafted'.node_size, himage, hnew.image_congr hpart hold]
    · rw [hold n (by omega)]
      exact h.graft_node hpart hwhole hnew hgrafted hgrafted' himage hlast hold hpos (by omega)

end Graft

/-- A node is grafted outside. No node inside takes it for a child, since this would put its parent
inside. -/
theorem graft_outside {p : Nat} {new : Node} (hgrafted : whole.Grafted p new whole')
    (hp : part.Outside r p ∨ p = 0 ∧ new.identity.name ∉ names)
    (hnew : ∀ id ∈ new.aliasOf, part.Outside r id) : part.Embeds names r whole' := by
  have hroot' : (0 : Nat) ≠ whole.size := Nat.ne_of_lt hwhole.root_lt
  have hshares : ∀ {n}, 0 < n → n < part.size → ¬whole.Shares p (r n) := by
    rintro n hpos hlt (heq | hmem)
    · rcases hp with hp | ⟨rfl, -⟩
      · exact hp n hlt heq
      · exact Nat.ne_of_gt (h.pos hpos hlt) heq
    · rcases hp with hp | ⟨rfl, -⟩
      · have halias := (hwhole.entry hmem).2
        rw [h.aliasOf hpart hwhole hlt, Option.map_eq_some_iff] at halias
        obtain ⟨q, hq, heq⟩ := halias
        exact hp q (hpart.aliasOf_lt hq) heq
      · rw [hwhole.entries_root] at hmem
        cases hmem
  refine ⟨h.root, h.mono, fun hn => ?_, fun {n} hpos hlt => ?_, ?_⟩
  · rw [hgrafted.size]
    exact Nat.lt_succ_of_lt (h.lt hn)
  · have halias : new.aliasOf ≠ some (r n) := fun heq => hnew _ heq n hlt rfl
    rw [hgrafted.node, if_neg (Nat.ne_of_lt (h.lt hlt)), if_neg (hshares hpos hlt), if_neg halias,
      if_neg halias]
    exact h.node hpos hlt
  · by_cases hs : whole.Shares p 0
    · obtain rfl := hwhole.eq_of_shares hwhole.root_aliasOf hs
      have hname := (hp.resolve_left fun hp => hp 0 hpart.root_lt h.root).2
      rw [hgrafted.children_of_shares hroot' hs, List.filter_append, h.top]
      simp [hname]
    · rw [hgrafted.children_of_not_shares hroot' hs, h.top]

/-! ## What is known of an argument -/

omit hpart hwhole in
theorem withDetail {n : Nat} (hpos : 0 < n) (hlt : n < part.size) (detail : Detail) :
    (part.modify n fun m => { m with detail }).Embeds names r
      (whole.modify (r n) fun m => { m with detail }) := by
  refine ⟨h.root, fun hab hb => h.mono hab (by simpa using hb), fun hn => ?_, ?_, ?_⟩
  · simpa using h.lt (by simpa using hn)
  · intro m hm hm'
    rw [size_modify] at hm'
    rw [node_modify, node_modify]
    by_cases heq : m = n
    · subst heq
      rw [if_pos ⟨rfl, h.lt hm'⟩, if_pos ⟨rfl, hm'⟩]
      exact (congrArg (fun m : Node => { m with detail }) (h.node hm hm') :)
    · rw [if_neg (fun hand => heq (h.inj hm' hlt hand.1)), if_neg (fun hand => heq hand.1)]
      exact h.node hm hm'
  · have hne : ¬(0 = n ∧ 0 < part.size) := by omega
    have hne' : ¬(0 = r n ∧ 0 < whole.size) := by
      have := h.pos hpos hlt
      omega
    rw [node_modify, node_modify, if_neg hne, if_neg hne', h.top]

/-- Merging into an argument comes to the same in both trees. -/
theorem mergeArgument {n : Nat} (hpos : 0 < n) (hlt : n < part.size)
    (hnone : (part.node n).aliasOf = none) (info : ArgumentInfo) :
    (whole.mergeArgument (r n) info).2 = (part.mergeArgument n info).2 ∧
      (part.mergeArgument n info).1.Embeds names r (whole.mergeArgument (r n) info).1 := by
  have hprimary := primary_of_aliasOf_eq_none hnone
  have hprimary' := h.primary hpart hwhole hlt
  rw [hprimary] at hprimary'
  unfold Tree.mergeArgument
  simp only [hprimary, hprimary', h.detail hpos hlt]
  split
  · exact ⟨rfl, h.withDetail hpos hlt _⟩
  · exact ⟨rfl, h⟩

omit hwhole in
/-- Merging into an argument that is outside. -/
theorem mergeArgument_outside {id : Nat} (hid : part.Outside r id)
    (hnone : (whole.node id).aliasOf = none) (info : ArgumentInfo) :
    part.Embeds names r (whole.mergeArgument id info).1 := by
  unfold Tree.mergeArgument
  rw [primary_of_aliasOf_eq_none hnone]
  dsimp only
  split
  · have hkept : ∀ n < part.size, ∀ f, (whole.modify id f).node (r n) = whole.node (r n) :=
      fun n hn f => by rw [node_modify, if_neg (fun hand => hid n hn hand.1)]
    refine ⟨h.root, h.mono, fun hn => by simpa using h.lt hn, fun hpos hlt => ?_, ?_⟩
    · rw [hkept _ hlt]
      exact h.node hpos hlt
    · have hroot := hkept 0 hpart.root_lt
      rw [h.root] at hroot
      rw [hroot, h.top]
  · exact h

/-! ## Commands -/

omit hpart hwhole in
/-- The handles of the nodes inside, in their order. -/
theorem filter_range :
    ((List.range whole.size).filter fun id => id ∈ (List.range part.size).map r) =
      (List.range part.size).map r := by
  refine List.Pairwise.eq_of_mem_iff (r := (· < ·)) (List.pairwise_lt_range.filter _) ?_
    fun id => ?_
  · rw [List.pairwise_map]
    exact List.pairwise_lt_range.imp_of_mem fun _ hb hab => h.mono hab (List.mem_range.mp hb)
  · simp only [List.mem_filter, decide_eq_true_eq, and_iff_right_iff_imp]
    intro hid
    obtain ⟨n, hn, rfl⟩ := List.mem_map.mp hid
    exact List.mem_range.mpr (h.lt (List.mem_range.mp hn))

/-- The commands inside are those of the smaller tree, in its order. -/
theorem filter_commands :
    (whole.commands.filter fun id => id ∈ (List.range part.size).map r) = part.commands.map r := by
  unfold Tree.commands
  rw [List.filter_comm, h.filter_range, List.filter_map]
  refine congrArg (List.map r) (List.filter_congr fun n hn => ?_)
  have hlt := List.mem_range.mp hn
  have halias := h.aliasOf hpart hwhole hlt
  simp only [Function.comp_apply, Node.isAlias, halias, Option.isSome_map]
  congr 1
  exact Bool.eq_iff_iff.mpr (by simpa using not_congr (h.eq_zero_iff hlt))

end Embeds

end Tree

end CommandTree
