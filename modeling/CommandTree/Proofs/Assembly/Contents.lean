import CommandTree.Proofs.Assembly.Conflicts
import CommandTree.Proofs.Tree.Paths

/-!
# What an environment holds

Without aliases, what structural declarations bring about can be told in single facts (`Fact`):
there is a command, something is known of it, it is in a scope. A node is told by the identities on
the way down to it, so that a fact says nothing of handles or of an order.

A walk brings about no more than its tokens say (`holds_walk`), and if it reports nothing all of it
(`holds_of_leads`). Tokens do not contradict a tree if some environment holds all that they say and
all that the tree holds (`not_stops_of_held`): two facts that contradict each other are held by
none.
-/

namespace CommandTree

open Namespace (Token)

/-- What can be known of an argument. -/
inductive Aspect
  | type
  | suggestions

namespace ArgumentInfo

/-- The text that is known of an argument. -/
def about (info : ArgumentInfo) : Aspect → Option String
  | .type => info.type
  | .suggestions => info.suggestions

theorem Extends.about {info info' : ArgumentInfo} (h : info.Extends info') {aspect : Aspect}
    {text : String} (htext : info.about aspect = some text) : info'.about aspect = some text := by
  cases aspect with
  | type => exact h.type htext
  | suggestions => exact h.suggestions htext

/-- Declarations of an argument that differ do so in one aspect. -/
theorem Differs.exists_about {known incoming : ArgumentInfo} (h : known.Differs incoming) :
    ∃ aspect x y, known.about aspect = some x ∧ incoming.about aspect = some y ∧ x ≠ y := by
  rcases h with ⟨x, y, h⟩ | ⟨x, y, h⟩
  · exact ⟨.type, x, y, h⟩
  · exact ⟨.suggestions, x, y, h⟩

theorem some_of_fill {conflict : String → String → Conflict}
    {existing incoming value : Option String}
    (h : fill conflict existing incoming = .ok value) {x : String} (hx : value = some x) :
    existing = some x ∨ incoming = some x := by
  subst hx
  cases existing with
  | none =>
    right
    simpa [fill] using h
  | some old =>
    left
    cases incoming with
    | none => simpa [fill] using h
    | some new =>
      by_cases heq : old = new <;> simp [fill, heq] at h
      simp [heq, h]

/-- What is known after merging was known before or is declared. -/
theorem about_of_merge {info incoming : ArgumentInfo} {aspect : Aspect} {x : String}
    (h : (info.merge incoming).1.about aspect = some x) :
    info.about aspect = some x ∨ incoming.about aspect = some x := by
  unfold merge at h
  split at h
  · exact Or.inl h
  · rename_i type htype
    split at h
    · cases aspect with
      | type => exact some_of_fill htype h
      | suggestions => exact Or.inl h
    · rename_i suggestions hsuggestions
      cases aspect with
      | type => exact some_of_fill htype h
      | suggestions => exact some_of_fill hsuggestions h

end ArgumentInfo

/-- What a structural declaration without aliases can bring about. -/
inductive Fact
  /-- There is a command. -/
  | node (ids : List Identity)
  /-- Something is known of an argument. -/
  | known (ids : List Identity) (aspect : Aspect) (text : String)
  /-- A command is in the scope of a type. -/
  | entered (scope : String) (ids : List Identity)

/-! ## Trees without aliases -/

namespace Tree

/-- No node is an alias entry. -/
def Plain (t : Tree) : Prop :=
  ∀ id, (t.node id).aliasOf = none

theorem Plain.empty : empty.Plain := by
  intro id
  rw [node_empty]
  rfl

theorem Plain.primary {t : Tree} (h : t.Plain) (id : Nat) : t.primary id = id :=
  primary_of_aliasOf_eq_none (h id)

/-- The child that a name leads to. -/
theorem Plain.of_find {t : Tree} (h : t.Plain) (ht : t.WellFormed) {parent child : Nat}
    {name : String} (hfind : t.find parent name = some child) :
    (t.node child).parent = some parent ∧ (t.node child).identity.name = name ∧
      t.identities child = t.identities parent ++ [(t.node child).identity] := by
  obtain ⟨identity, hname, hmem⟩ := ht.find_eq_some_iff.mp hfind
  rw [h.primary] at hmem
  obtain ⟨-, hidentity, hparent⟩ := ht.child (h parent) hmem
  exact ⟨hparent, by rw [hidentity, hname], ht.identities_of_parent hparent⟩

/-- The identities of the child that a name leads to, if it is of the kind. -/
theorem Plain.identities_of_find {t : Tree} (h : t.Plain) (ht : t.WellFormed) {parent child : Nat}
    {identity : Identity} (hfind : t.find parent identity.name = some child)
    (hkind : (t.node child).identity.kind = identity.kind) :
    t.identities child = t.identities parent ++ [identity] := by
  obtain ⟨-, hname, hids⟩ := h.of_find ht hfind
  have hidentity : (t.node child).identity = identity := by
    cases hi : (t.node child).identity
    cases identity
    simp_all
  rw [hids, hidentity]

theorem Plain.of_grafted {t t' : Tree} {parent : Nat} {new : Node} (h : t.Plain)
    (hgrafted : t.Grafted parent new t') (hnew : new.aliasOf = none) : t'.Plain := by
  intro id
  by_cases hid : id = t.size
  · rw [hid, hgrafted.node_size, hnew]
  · rw [(hgrafted.node_of_ne hid).2.1, h id]

/-- Identities depend on parents and on the nodes' own identities only. -/
theorem identities_congr {t t' : Tree} (h : ∀ id, SameLinks (t.node id) (t'.node id)) (id : Nat) :
    t'.identities id = t.identities id := by
  induction id using Nat.strongRecOn with
  | ind id ih =>
    rw [identities, identities, (h id).parent, (h id).identity]
    by_cases hid : id = 0
    · rw [if_pos hid, if_pos hid]
    · rw [if_neg hid, if_neg hid]
      cases (t.node id).parent with
      | none => rfl
      | some p =>
        by_cases hlt : p < id
        · simp only [hlt, dif_pos, ih p hlt]
        · simp only [hlt, dif_neg, not_false_eq_true]

/-- Merging changes at most what is known of the argument. -/
theorem detail_mergeArgument {t : Tree} {id : Nat} (hid : (t.node id).aliasOf = none)
    (info : ArgumentInfo) (n : Nat) :
    ((t.mergeArgument id info).1.node n).detail = (t.node n).detail ∨
      n = id ∧ ∃ old, (t.node id).detail = .argument old ∧
        ((t.mergeArgument id info).1.node n).detail = .argument (old.merge info).1 := by
  unfold mergeArgument
  rw [primary_of_aliasOf_eq_none hid]
  dsimp only
  split
  · rename_i old hold
    rw [node_modify]
    split
    · rename_i h
      exact Or.inr ⟨h.1, old, hold, rfl⟩
    · exact Or.inl rfl
  · exact Or.inl rfl

end Tree

namespace Environment

/-- The environment holds a fact. -/
def Holds (env : Environment) : Fact → Prop
  | .node ids => ∃ n, 0 < n ∧ n < env.tree.size ∧ env.tree.identities n = ids
  | .known ids aspect text => ∃ n info, env.tree.identities n = ids ∧
      (env.tree.node n).detail = .argument info ∧ info.about aspect = some text
  | .entered scope ids => ∃ s ∈ env.scopes, s.name = scope ∧
      ∃ n ∈ s.nodes, env.tree.identities n = ids

variable {env env' : Environment} {site : Element} {text : String} {info : Option ArgumentInfo}
  {parent : Nat} {token : Token} {rest : List Token} {f : Fact}

/-- Bindings do not tell identities. -/
theorem Alike.identities (h : env.Alike env') (n : Nat) :
    env'.tree.identities n = env.tree.identities n :=
  Tree.identities_congr h.links n

/-- Facts are about the tree and the scopes only. -/
theorem holds_congr (htree : env'.tree = env.tree) (hscopes : env'.scopes = env.scopes) :
    env'.Holds f ↔ env.Holds f := by
  cases f <;> simp only [Holds, htree, hscopes]

theorem lt_of_argument {t : Tree} {n : Nat} {info : ArgumentInfo}
    (h : (t.node n).detail = .argument info) : n < t.size :=
  Tree.lt_size_of_ne_root fun heq => by simp [heq, Node.root] at h

/-- A fact that is held stays so. -/
theorem Extends.holds (h : env.Extends env') (henv : env.WellFormed) (henv' : env'.WellFormed)
    (hf : env.Holds f) : env'.Holds f := by
  have hids : ∀ {n}, n < env.tree.size → env'.tree.identities n = env.tree.identities n :=
    h.tree.identities henv.tree henv'.tree
  cases f with
  | node ids =>
    obtain ⟨n, hpos, hlt, rfl⟩ := hf
    exact ⟨n, hpos, Nat.lt_of_lt_of_le hlt h.tree.size_le, hids hlt⟩
  | known ids aspect text =>
    obtain ⟨n, info, rfl, hinfo, htext⟩ := hf
    have hlt := lt_of_argument hinfo
    have hkept := (h.tree.node hlt).detail
    rw [hinfo] at hkept
    obtain ⟨info', hinfo', hext⟩ := hkept.exists_argument
    exact ⟨n, info', hids hlt, hinfo', hext.about htext⟩
  | entered scope ids =>
    obtain ⟨s, hs, rfl, n, hn, rfl⟩ := hf
    obtain ⟨s', hs', hname, hn'⟩ := h.inScope
      (⟨s, hs, rfl, hn⟩ : env.InScope (.ofType s.name) n)
    exact ⟨s', hs', hname, n, hn', hids (henv.node_lt hs hn).2⟩

/-! ## What tokens say -/

/-- The tokens say that a fact holds, if they stand for the way down from a node with the identities
`ids`. -/
inductive Says (site : Element) (info : Option ArgumentInfo) :
    List Identity → List Token → Fact → Prop
  | node (ids : List Identity) (token : Token) (rest : List Token) :
      Says site info ids (token :: rest) (.node (ids ++ [token.identity]))
  | entered (ids : List Identity) (token : Token) (rest : List Token) :
      Says site info ids (token :: rest) (.entered site.scope (ids ++ [token.identity]))
  | known (ids : List Identity) (token : Token) {i : ArgumentInfo} (hi : info = some i)
      {aspect : Aspect} {text : String} (h : i.about aspect = some text) :
      Says site info ids [token] (.known (ids ++ [token.identity]) aspect text)
  | further {ids : List Identity} {token : Token} {rest : List Token} {f : Fact}
      (h : Says site info (ids ++ [token.identity]) rest f) : Says site info ids (token :: rest) f

/-- What a token says of an argument is said of it. -/
theorem says_detailOf {i : ArgumentInfo} (h : detailOf info token rest = .argument i)
    {ids : List Identity} {aspect : Aspect} {text : String} (htext : i.about aspect = some text) :
    Says site info ids (token :: rest) (.known (ids ++ [token.identity]) aspect text) := by
  rcases detailOf_eq_argument h with ⟨rfl, hi⟩ | ⟨-, rfl⟩
  · exact .known ids token hi htext
  · cases aspect <;> cases htext

/-! ## Nothing else is brought about -/

/-- Entering a scope brings about one fact. -/
theorem holds_enterScope {node : Nat} (hnode : (env.tree.node node).aliasOf = none)
    (h : (env.enterScope site node).Holds f) :
    env.Holds f ∨ f = .entered site.scope (env.tree.identities node) := by
  cases f with
  | entered scope ids =>
    obtain ⟨s, hs, rfl, n, hn, rfl⟩ := h
    unfold enterScope at hs
    rw [Tree.primary_of_aliasOf_eq_none hnode] at hs
    rcases Scope.mem_enter hs with hs | ⟨old, rfl, hname, hold⟩
    · exact Or.inl ⟨s, hs, rfl, n, hn, rfl⟩
    · rcases Scope.mem_nodes_add.mp hn with hn | rfl
      · rcases hold with hold | ⟨rfl, -⟩
        · exact Or.inl ⟨old, hold, rfl, n, hn, rfl⟩
        · cases hn
      · exact Or.inr (by rw [Scope.name_add, hname]; rfl)
  | _ => exact Or.inl h

/-- Merging brings about at most what is declared of the argument. -/
theorem holds_mergeArgument {node : Nat} (hnode : (env.tree.node node).aliasOf = none)
    {i : ArgumentInfo}
    (h : Holds { env with tree := (env.tree.mergeArgument node i).1 } f) :
    env.Holds f ∨ ∃ aspect text, i.about aspect = some text ∧
      f = .known (env.tree.identities node) aspect text := by
  have hids := Tree.identities_congr (env.tree.sameLinks_mergeArgument node i)
  cases f with
  | node ids =>
    obtain ⟨n, hpos, hlt, rfl⟩ := h
    exact Or.inl ⟨n, hpos, by simpa using hlt, (hids n).symm⟩
  | known ids aspect text =>
    obtain ⟨n, info, rfl, hinfo, htext⟩ := h
    dsimp only at hinfo htext
    rw [hids]
    rcases Tree.detail_mergeArgument hnode i n with hsame | ⟨rfl, old, hold, hmerged⟩
    · exact Or.inl ⟨n, info, rfl, hsame ▸ hinfo, htext⟩
    · obtain rfl := Detail.argument.inj (hmerged.symm.trans hinfo)
      rcases ArgumentInfo.about_of_merge htext with htext | htext
      · exact Or.inl ⟨n, old, rfl, hold, htext⟩
      · exact Or.inr ⟨aspect, text, htext, rfl⟩
  | entered scope ids =>
    obtain ⟨s, hs, hname, n, hn, rfl⟩ := h
    exact Or.inl ⟨s, hs, hname, n, hn, (hids n).symm⟩

/-- A new command brings about that it is there, with what is declared of it. -/
theorem holds_insert (henv : env.WellFormed) {identity : Identity} {detail : Detail}
    {origin : Option Element}
    (hnew : env.tree.Graftable parent { identity, detail, parent := some parent, origin })
    (h : Holds { env with tree := env.tree.insert parent identity detail origin } f) :
    env.Holds f ∨ f = .node (env.tree.identities parent ++ [identity]) ∨
      ∃ i aspect text, detail = .argument i ∧ i.about aspect = some text ∧
        f = .known (env.tree.identities parent ++ [identity]) aspect text := by
  have hgrafted := Tree.grafted_insert henv.tree hnew
  have hwf := henv.tree.of_grafted hnew hgrafted
  have hsize := hgrafted.node_size
  have hold : ∀ {n}, n < env.tree.size →
      (env.tree.insert parent identity detail origin).identities n = env.tree.identities n :=
    (hgrafted.extends henv.tree).identities henv.tree hwf
  have hlast : (env.tree.insert parent identity detail origin).identities env.tree.size =
      env.tree.identities parent ++ [identity] := by
    rw [hwf.identities_of_parent (by rw [hsize]), hold hnew.parent_lt, hsize]
  have hcases : ∀ {n}, n < (env.tree.insert parent identity detail origin).size →
      n < env.tree.size ∨ n = env.tree.size := by
    intro n hlt
    rw [hgrafted.size] at hlt
    omega
  cases f with
  | node ids =>
    obtain ⟨n, hpos, hlt, rfl⟩ := h
    rcases hcases hlt with hlt | rfl
    · exact Or.inl ⟨n, hpos, hlt, (hold hlt).symm⟩
    · exact Or.inr (Or.inl (congrArg Fact.node hlast))
  | known ids aspect text =>
    obtain ⟨n, info, rfl, hinfo, htext⟩ := h
    dsimp only at hinfo htext ⊢
    rcases hcases (lt_of_argument hinfo) with hlt | rfl
    · rw [(hgrafted.node_of_ne (Nat.ne_of_lt hlt)).2.2.2] at hinfo
      exact Or.inl ⟨n, info, (hold hlt).symm, hinfo, htext⟩
    · rw [hsize] at hinfo
      exact Or.inr (Or.inr ⟨info, aspect, text, hinfo, htext, by rw [hlast]⟩)
  | entered scope ids =>
    obtain ⟨s, hs, hname, n, hn, rfl⟩ := h
    exact Or.inl ⟨s, hs, hname, n, hn, (hold (henv.node_lt hs hn).2).symm⟩

/-- One token of a walk brings about at most what it says. -/
theorem holds_reach (h : Ready site info (token :: rest) parent env) (hplain : env.tree.Plain)
    {env₁ : Environment} {node : Nat}
    (hr : env.reach site text parent token (detailOf info token rest) = (env₁, some node)) :
    env₁.diagnostics = env.diagnostics ∧ env₁.tree.Plain ∧
      env₁.tree.identities node = env.tree.identities parent ++ [token.identity] ∧
      ∀ {f}, env₁.Holds f → env.Holds f ∨
        Says site info (env.tree.identities parent) (token :: rest) f := by
  have hwf := h.wellFormed
  cases hfind : env.tree.find parent token.identity.name with
  | none =>
    have hnew := Tree.graftable_command h.lt h.aliasOf hfind h.fits (some site)
    have hready := (h.next hr).1.wellFormed hwf
    have hnode := (h.next hr).2.1
    rw [reach_of_find_eq_none hfind, Prod.mk.injEq, Option.some.injEq] at hr
    obtain ⟨rfl, rfl⟩ := hr
    have hgrafted := Tree.grafted_insert hwf.tree hnew
    refine ⟨rfl, hplain.of_grafted hgrafted rfl, ?_, fun hf => ?_⟩
    · rw [hready.tree.identities_of_parent hnode.parent]
      dsimp only
      rw [hgrafted.node_size, (hgrafted.extends hwf.tree).identities hwf.tree hready.tree h.lt]
    · rcases holds_insert hwf hnew hf with hf | rfl | ⟨i, aspect, text, hi, htext, rfl⟩
      · exact Or.inl hf
      · exact Or.inr (.node _ token rest)
      · exact Or.inr (says_detailOf hi htext)
  | some child =>
    have hnone := hplain child
    rw [reach, hfind] at hr
    dsimp only at hr
    rw [hplain.primary] at hr
    rcases env.meet_cases site text token (detailOf info token rest) child with
      ⟨-, message, heq⟩ | ⟨hkind, ⟨-, heq⟩ | ⟨i, hi, ⟨message, heq⟩ | ⟨-, heq⟩⟩⟩
    · rw [heq] at hr
      cases hr
    · rw [heq] at hr
      cases hr
      exact ⟨rfl, hplain, hplain.identities_of_find hwf.tree hfind hkind, Or.inl⟩
    · rw [heq] at hr
      cases hr
    · have hids := hplain.identities_of_find hwf.tree hfind hkind
      have hlinks := env.tree.sameLinks_mergeArgument child i
      rw [heq] at hr
      cases hr
      refine ⟨rfl, fun n => by rw [(hlinks n).aliasOf, hplain n], ?_, fun hf => ?_⟩
      · rw [Tree.identities_congr hlinks, hids]
      · rcases holds_mergeArgument hnone hf with hf | ⟨aspect, text, htext, rfl⟩
        · exact Or.inl hf
        · rw [hids]
          exact Or.inr (says_detailOf hi htext)

/-- The first step of a walk that does not stop, by a token without aliases. -/
theorem Ready.walk_next (h : Ready site info (token :: rest) parent env)
    (haliases : token.aliases = []) {last : Nat}
    (hw : walk site text info (token :: rest) parent env = (env', some last)) :
    ∃ env₁ node,
      env.reach site text parent token (detailOf info token rest) = (env₁, some node) ∧
      Ready site info rest node (env₁.enterScope site node) ∧
      walk site text info rest node (env₁.enterScope site node) = (env', some last) := by
  rw [walk] at hw
  cases hr : env.reach site text parent token (detailOf info token rest) with
  | mk env₁ result =>
    rw [hr] at hw
    cases result with
    | none => cases hw
    | some node =>
      have hnext := (h.next hr).2.2.2
      rw [settle, haliases, List.foldl_nil] at hnext
      dsimp only at hw
      rw [haliases, List.foldl_nil] at hw
      exact ⟨env₁, node, rfl, hnext, hw⟩

/-- A walk without aliases that does not stop reports nothing, and brings about at most what its
tokens say. -/
theorem holds_walk : ∀ {tokens : List Token} {parent : Nat} {env env' : Environment} {last : Nat},
    Ready site info tokens parent env → env.tree.Plain → (∀ token ∈ tokens, token.aliases = []) →
    walk site text info tokens parent env = (env', some last) →
    env'.diagnostics = env.diagnostics ∧ env'.tree.Plain ∧
      ∀ {f}, env'.Holds f → env.Holds f ∨ Says site info (env.tree.identities parent) tokens f
  | [], _, _, _, _, _, hplain, _, hw => by
    cases hw
    exact ⟨rfl, hplain, Or.inl⟩
  | token :: rest, parent, env, env', last, h, hplain, haliases, hw => by
    rw [List.forall_mem_cons] at haliases
    obtain ⟨env₁, node, hr, hnext, hw⟩ := h.walk_next haliases.1 hw
    obtain ⟨hquiet, hplain₁, hids, hreach⟩ := holds_reach h hplain hr
    obtain ⟨hquiet', hplain', hrest⟩ := holds_walk hnext hplain₁ haliases.2 hw
    refine ⟨hquiet'.trans hquiet, hplain', fun hf => ?_⟩
    rcases hrest hf with hf | hf
    · rcases holds_enterScope (hplain₁ node) hf with hf | rfl
      · exact hreach hf
      · rw [hids]
        exact Or.inr (.entered _ token rest)
    · rw [tree_enterScope, hids] at hf
      exact Or.inr (.further hf)

/-! ## All of it is brought about -/

/-- What tokens say is held where they lead. -/
theorem holds_of_leads (hplain : env.tree.Plain) (henv : env.WellFormed) :
    ∀ {tokens : List Token} {parent last : Nat},
      env.Leads site parent (tokens.map (·.identity)) last →
      (tokens ≠ [] → ∀ i ∈ info, (env.tree.node last).Knows i) →
      Says site info (env.tree.identities parent) tokens f → env.Holds f
  | [], _, _, _, _, hsays => by cases hsays
  | token :: rest, parent, last, hleads, hknows, hsays => by
    cases hleads with
    | @cons _ child _ _ _ hfind hkind hscope hrest =>
      rw [hplain.primary] at hkind hscope hrest
      have hids := hplain.identities_of_find henv.tree hfind hkind
      obtain ⟨hpos, hlt⟩ := henv.lt_of_inScope hscope
      cases hsays with
      | node => exact ⟨child, hpos, hlt, hids⟩
      | entered =>
        obtain ⟨s, hs, hname, hmem⟩ := hscope
        exact ⟨s, hs, hname, child, hmem, hids⟩
      | known _ _ hi htext =>
        cases hrest
        obtain ⟨known, hknown, hext⟩ := hknows (by simp) _ hi
        exact ⟨last, known, hids, hknown, hext.about htext⟩
      | further hsays =>
        rw [← hids] at hsays
        exact holds_of_leads hplain henv hrest (fun _ => hknows (by simp)) hsays

/-! ## Facts that stand together -/

/-- Tokens do not contradict a tree if some environment holds all that they say and all that the
tree holds. -/
theorem not_stops_of_held {whole : Environment} (hplain : env.tree.Plain) (henv : env.WellFormed)
    (hwhole : whole.WellFormed) (hheld : ∀ {f}, env.Holds f → whole.Holds f) {tokens : List Token}
    {nodes : List Nat} (h : env.tree.Stops info parent tokens nodes)
    (hsaid : ∀ {f}, Says site info (env.tree.identities parent) tokens f → whole.Holds f) :
    False := by
  induction h with
  | @here parent child token rest hfind hcontradicts =>
    rw [hplain.primary] at hcontradicts
    obtain ⟨hparent, hname, hids⟩ := hplain.of_find henv.tree hfind
    obtain ⟨hpos, hlt, -⟩ := henv.tree.parent_lt hparent
    obtain ⟨a, -, ha, hids_a⟩ := hheld (f := .node _) ⟨child, hpos, hlt, rfl⟩
    obtain ⟨b, -, hb, hids_b⟩ := hsaid (.node _ token rest)
    rw [hids] at hids_a
    obtain rfl := hwhole.tree.eq_of_identities_append ha hb hids_a hids_b hname
    have hidentity : (env.tree.node child).identity = token.identity := by
      have heq := hids_a.symm.trans hids_b
      simpa using heq
    cases hcontradicts with
    | kind hkind => exact hkind (by rw [hidentity])
    | @info declared known hlast hinfo hknown hdiffers =>
      subst hlast
      obtain ⟨aspect, x, y, hx, hy, hne⟩ := hdiffers.exists_about
      obtain ⟨m, i, hids_m, hi, hix⟩ :=
        hheld (f := .known _ aspect x) ⟨child, known, rfl, hknown, hx⟩
      obtain ⟨n, j, hids_n, hj, hjy⟩ := hsaid (.known _ token hinfo hy)
      rw [hids, hidentity] at hids_m
      obtain rfl := hwhole.tree.identities_inj (lt_of_argument hi) (lt_of_argument hj)
        (hids_m.trans hids_n.symm)
      obtain rfl := Detail.argument.inj (hi.symm.trans hj)
      exact hne (Option.some.inj (hix.symm.trans hjy))
  | @further parent child token rest nodes hfind hkind hstops ih =>
    rw [hplain.primary] at hkind ih
    have hids := hplain.identities_of_find henv.tree hfind hkind
    refine ih fun hsays => hsaid (.further ?_)
    rwa [hids] at hsays

end Environment

end CommandTree
