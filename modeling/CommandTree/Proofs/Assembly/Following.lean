import CommandTree.Proofs.Assembly.Reached

/-!
# Following identities down a tree

`Leads` says where a list of identities leads: at each step to the child with the name, and from an
alias entry on to the node it stands for, which must be of the kind and in the scope of an element.
A binding is resolved by exact identities instead of names. In an orderly environment this comes
to the same (`resolve_eq_ok_iff`), since siblings differ in their names and an alias entry is a
literal like the node it stands for.

What identities lead to does not change while an environment grows (`Leads.extends`).
-/

namespace CommandTree

open Namespace (Token)

/-- A name leads to the same child while a tree grows. -/
theorem Tree.Extends.find {t t' : Tree} (h : t.Extends t') (ht : t.WellFormed)
    (ht' : t'.WellFormed) {p c : Nat} {name : String} (hp : p < t.size)
    (hfind : t.find p name = some c) : t'.find p name = some c := by
  obtain ⟨identity, hname, hmem⟩ := ht.find_eq_some_iff.mp hfind
  refine ht'.find_eq_some_iff.mpr ⟨identity, hname, ?_⟩
  rw [h.primary hp]
  exact (h.node (ht.primary_lt hp)).children.subset hmem

/-- The node that a name leads to is there. -/
theorem Tree.WellFormed.find_lt {t : Tree} (ht : t.WellFormed) {p c : Nat} {name : String}
    (hfind : t.find p name = some c) : c < t.size ∧ t.primary c < t.size := by
  obtain ⟨identity, -, hmem⟩ := ht.find_eq_some_iff.mp hfind
  have hlt := (ht.child (ht.aliasOf_primary p) hmem).1
  exact ⟨hlt, ht.primary_lt hlt⟩

namespace Environment

/-- The identities lead from `parent` down to a node, by names and through alias entries. Each
node on the way is of the kind of its identity and in the scope of `site`. -/
inductive Leads (env : Environment) (site : Element) : Nat → List Identity → Nat → Prop
  | nil (node : Nat) : Leads env site node [] node
  | cons {parent child last : Nat} {identity : Identity} {rest : List Identity}
      (hfind : env.tree.find parent identity.name = some child)
      (hkind : (env.tree.node (env.tree.primary child)).identity.kind = identity.kind)
      (hscope : env.InScope site (env.tree.primary child))
      (hrest : Leads env site (env.tree.primary child) rest last) :
      Leads env site parent (identity :: rest) last

/-- Where identities lead does not change while an environment grows. -/
theorem Leads.extends {env env' : Environment} {site : Element} {parent last : Nat}
    {identities : List Identity} (h : env.Leads site parent identities last)
    (hext : env.Extends env') (henv : env.WellFormed) (henv' : env'.WellFormed)
    (hlt : parent < env.tree.size) : env'.Leads site parent identities last := by
  induction h with
  | nil node => exact .nil node
  | cons hfind hkind hscope _ ih =>
    obtain ⟨hc, hp⟩ := henv.tree.find_lt hfind
    have hprimary := hext.tree.primary hc
    have hfind' := hext.tree.find henv.tree henv'.tree hlt hfind
    refine .cons hfind' ?_ ?_ ?_
    · rw [hprimary, hext.tree.identity hp]
      exact hkind
    · rw [hprimary]
      exact hext.inScope hscope
    · rw [hprimary]
      exact ih hp

/-- Where identities lead, there is a node. -/
theorem Leads.lt {env : Environment} {site : Element} {parent last : Nat}
    {identities : List Identity} (h : env.Leads site parent identities last)
    (henv : env.WellFormed) (hlt : parent < env.tree.size) : last < env.tree.size := by
  induction h with
  | nil node => exact hlt
  | cons hfind _ _ _ ih => exact ih (henv.tree.find_lt hfind).2

/-! ## Exact identities -/

/-- An alias entry and the node it stands for are both literals. -/
theorem Orderly.kind_primary {env : Environment} (henv : env.Orderly) (id : Nat) :
    (env.tree.node (env.tree.primary id)).identity.kind = (env.tree.node id).identity.kind := by
  cases h : (env.tree.node id).aliasOf with
  | none => rw [Tree.primary_of_aliasOf_eq_none h]
  | some p =>
    have hne : (env.tree.node p).aliases ≠ [] := by
      intro hnil
      have hmem := (henv.mirrored.mirror h).1
      have hnames := henv.mirrored.names p
      rw [hnil, List.map_nil, List.map_eq_nil_iff] at hnames
      simp [hnames] at hmem
    rw [henv.mirrored.kind_of_aliasOf h]
    simpa [Tree.primary, h] using henv.tree.aliases hne

/-- A node is in a type's scope if the scope that is looked up has it. -/
theorem WellFormed.inScope_iff {env : Environment} (henv : env.WellFormed) {site : Element}
    {node : Nat} : env.InScope site node ↔
      ∃ s, env.scope? site.scope = some s ∧ s.contains node = true := by
  constructor
  · rintro ⟨s, hs, hname, hn⟩
    exact ⟨s, henv.scope?_eq_some hs hname, by simpa [Scope.contains] using hn⟩
  · rintro ⟨s, hscope, hn⟩
    exact ⟨s, List.mem_of_find?_eq_some hscope, by simpa using List.find?_some hscope,
      by simpa [Scope.contains] using hn⟩

/-- An exact identity leads where its name leads, if that is of its kind. -/
theorem Orderly.child_eq_some_iff {env : Environment} (henv : env.Orderly) {parent c : Nat}
    {identity : Identity} : env.tree.child parent identity = some c ↔
      env.tree.find parent identity.name = some c ∧
        (env.tree.node (env.tree.primary c)).identity.kind = identity.kind := by
  rw [henv.tree.child_eq_some_iff, henv.tree.find_eq_some_iff, henv.kind_primary]
  have hparent := henv.tree.aliasOf_primary parent
  constructor
  · intro hmem
    exact ⟨⟨identity, rfl, hmem⟩, by rw [(henv.tree.child hparent hmem).2.1]⟩
  · rintro ⟨⟨identity', hname, hmem⟩, hkind⟩
    rw [(henv.tree.child hparent hmem).2.1] at hkind
    obtain rfl : identity' = identity := by
      cases identity
      cases identity'
      simp_all
    exact hmem

/-- A binding is resolved to the node that its identities lead to. -/
theorem resolve_eq_ok_iff {env : Environment} (henv : env.Orderly) {site : Element}
    {tokens : List Token} {parent n : Nat} : env.resolve site tokens parent = .ok n ↔
      env.Leads site parent (tokens.map (·.identity)) n := by
  induction tokens generalizing parent with
  | nil =>
    constructor
    · rintro ⟨⟩
      exact .nil _
    · rintro ⟨⟩
      rfl
  | cons token rest ih =>
    rw [resolve, List.map_cons]
    constructor
    · intro h
      split at h
      · rename_i child hstep
        obtain ⟨c, s, hchild, hscope, hcontains, rfl⟩ := step?_eq_some.mp hstep
        obtain ⟨hfind, hkind⟩ := henv.child_eq_some_iff.mp hchild
        exact .cons hfind hkind (henv.inScope_iff.mpr ⟨s, hscope, hcontains⟩) (ih.mp h)
      · cases h
    · intro h
      cases h with
      | @cons _ c _ _ _ hfind hkind hscope hrest =>
        obtain ⟨s, hs, hcontains⟩ := henv.inScope_iff.mp hscope
        have hstep := step?_eq_some.mpr
          ⟨c, s, henv.child_eq_some_iff.mpr ⟨hfind, hkind⟩, hs, hcontains, rfl⟩
        rw [hstep]
        exact ih.mpr hrest

end Environment

end CommandTree
