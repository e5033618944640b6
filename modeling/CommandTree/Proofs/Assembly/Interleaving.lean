import CommandTree.Proofs.Assembly.Embedding

/-!
# Interleaved declarations

Let the declarations of two families stand in one list, each family in its order (`Interleaves`). If
the families have no type and no top-level name in common, the commands of one are all *outside* of
what the other declares: a walk that starts at another name stays outside (`Embeds.walk_outside`),
and a binding sees only its own scope (`Embeds.bindElement_outside`). So each declaration of the
first family is a step in both environments, and each of the second a step in one of them.

The environment of the first family is embedded in that of both (`exists_embeds`).
-/

namespace CommandTree

open Namespace (IsName Token)

/-- The members of `all` are those of `as` and `bs`, in the order of each. -/
inductive Interleaves {α : Type} : List α → List α → List α → Prop
  | nil : Interleaves [] [] []
  | left (a : α) {as bs all : List α} (h : Interleaves as bs all) :
      Interleaves (a :: as) bs (a :: all)
  | right (b : α) {as bs all : List α} (h : Interleaves as bs all) :
      Interleaves as (b :: bs) (b :: all)

theorem Interleaves.filter {α : Type} {as bs all : List α} (h : Interleaves as bs all)
    (p : α → Bool) : Interleaves (as.filter p) (bs.filter p) (all.filter p) := by
  induction h with
  | nil => exact .nil
  | left a _ ih =>
    rw [List.filter_cons, List.filter_cons]
    split
    · exact .left a ih
    · exact ih
  | right b _ ih =>
    rw [List.filter_cons, List.filter_cons]
    split
    · exact .right b ih
    · exact ih

namespace Environment

variable {types names : List String} {r : Nat → Nat} {part whole part' whole' : Environment}
  {site : Element}

/-! ## Binding elements of the types -/

/-- An embedding holds of environments with other bindings, if these are renamed alike. -/
theorem Embeds.rebind (h : part.Embeds types names r whole) (hpart : part.Alike part')
    (hwhole : whole.Alike whole') (hreports : part'.diagnostics = part.diagnostics)
    (hreports' : whole'.diagnostics = whole.diagnostics)
    (hbindings : (whole'.bindings.filter fun b => b.site.scope ∈ types) =
      part'.bindings.map (.image r)) : part'.Embeds types names r whole' := by
  have houtside : ∀ {id}, part'.tree.Outside r id ↔ part.tree.Outside r id := by
    simp [Tree.Outside, hpart.size]
  refine ⟨h.tree.congr hpart.size hwhole.size hpart.bare hwhole.bare, ?_, ?_, ?_, ?_, hbindings, ?_⟩
  · intro id
    rw [hpart.origin]
    exact h.origin
  · intro id hid
    rw [hwhole.origin]
    exact h.outside (houtside.mp hid)
  · rw [hpart.scopes, hwhole.scopes, h.scopes]
  · intro s hs hname n hn
    rw [hwhole.scopes] at hs
    exact houtside.mpr (h.others hs hname n hn)
  · rw [hreports, hreports', h.diagnostics]

theorem Embeds.scope? (h : part.Embeds types names r whole) {name : String} (hname : name ∈ types) :
    whole.scope? name = (part.scope? name).map (.image r) := by
  have hfind : (whole.scopes.filter fun s => s.name ∈ types).find? (·.name == name) =
      whole.scope? name := by
    rw [List.find?_filter, Environment.scope?]
    refine congrArg (List.find? · whole.scopes) (funext fun s => Bool.eq_iff_iff.mpr ?_)
    simp only [decide_eq_true_eq, beq_iff_eq, and_iff_right_iff_imp]
    rintro rfl
    exact hname
  rw [← hfind, h.scopes, List.find?_map]
  rfl

/-- The scopes of the types have only nodes inside. -/
theorem Embeds.exists_of_mem (h : part.Embeds types names r whole) (hpart : part.WellFormed)
    {s : Scope} (hs : s ∈ whole.scopes) (hname : s.name ∈ types) {id : Nat} (hid : id ∈ s.nodes) :
    ∃ n, 0 < n ∧ n < part.tree.size ∧ r n = id := by
  have hmem : s ∈ part.scopes.map (.image r) := by
    rw [← h.scopes, List.mem_filter]
    exact ⟨hs, by simpa using hname⟩
  obtain ⟨s₁, hs₁, rfl⟩ := List.mem_map.mp hmem
  obtain ⟨n, hn, rfl⟩ := List.mem_map.mp hid
  exact ⟨n, (hpart.node_lt hs₁ hn).1, (hpart.node_lt hs₁ hn).2, rfl⟩

theorem Embeds.contains_image (h : part.Embeds types names r whole) (hpart : part.WellFormed)
    {s : Scope} (hs : s ∈ part.scopes) {n : Nat} (hlt : n < part.tree.size) :
    (s.image r).contains (r n) = s.contains n := by
  refine Bool.eq_iff_iff.mpr ?_
  simp only [Scope.contains, Scope.image, List.contains_iff_mem, List.mem_map]
  refine ⟨?_, fun hmem => ⟨_, hmem, rfl⟩⟩
  rintro ⟨m, hm, heq⟩
  rwa [← h.tree.inj (hpart.node_lt hs hm).2 hlt heq]

/-- What has another name right below the root is in no scope of the types. -/
theorem Embeds.step?_of_top (h : part.Embeds types names r whole) (hpart : part.WellFormed)
    (hwhole : whole.WellFormed) (hsite : site.scope ∈ types) {identity : Identity}
    (hname : identity.name ∉ names) :
    part.step? site 0 identity = none ∧ whole.step? site 0 identity = none := by
  have hprimary := Tree.primary_of_aliasOf_eq_none hpart.tree.root_aliasOf
  have hprimary' := Tree.primary_of_aliasOf_eq_none hwhole.tree.root_aliasOf
  constructor
  · refine Option.eq_none_iff_forall_ne_some.mpr fun n hn => hname ?_
    obtain ⟨child, -, hchild, -⟩ := step?_eq_some.mp hn
    rw [hpart.tree.child_eq_some_iff, hprimary] at hchild
    have hmem : (identity, r child) ∈ (part.tree.node 0).children.map fun e => (e.1, r e.2) :=
      List.mem_map.mpr ⟨_, hchild, rfl⟩
    rw [← h.tree.top, List.mem_filter] at hmem
    simpa using hmem.2
  · refine Option.eq_none_iff_forall_ne_some.mpr fun n hn => ?_
    obtain ⟨s, hs, hscope, hmem⟩ := inScope_of_step? hn
    obtain ⟨m, -, hm, hrm⟩ := h.exists_of_mem hpart hs (hscope ▸ hsite) hmem
    obtain ⟨child, -, hchild, -, -, rfl⟩ := step?_eq_some.mp hn
    rw [hwhole.tree.child_eq_some_iff, hprimary'] at hchild
    obtain ⟨-, hidentity, hparent⟩ := hwhole.tree.child hwhole.tree.root_aliasOf hchild
    have houtside := h.tree.outside_of_top hpart.tree hwhole.tree hparent (by rwa [hidentity])
    exact h.tree.outside_primary hpart.tree hwhole.tree houtside m hm hrm

/-- An identity leads to a node where it leads to the image of the node. -/
theorem Embeds.step? (h : part.Embeds types names r whole) (hpart : part.WellFormed)
    (hwhole : whole.WellFormed) (hsite : site.scope ∈ types) {node : Nat}
    (hlt : node < part.tree.size) (identity : Identity) :
    whole.step? site (r node) identity = (part.step? site node identity).map r := by
  by_cases htop : node = 0 ∧ identity.name ∉ names
  · obtain ⟨rfl, hname⟩ := htop
    obtain ⟨hnone, hnone'⟩ := h.step?_of_top hpart hwhole hsite hname
    rw [h.tree.root, hnone, hnone', Option.map_none]
  · have hchild : whole.tree.child (r node) identity = (part.tree.child node identity).map r :=
      h.tree.child hpart.tree hwhole.tree hlt fun hzero => by simpa [hzero] using htop
    unfold Environment.step?
    rw [hchild, h.scope? hsite]
    cases hc : part.tree.child node identity with
    | none => rfl
    | some child =>
      cases hs : part.scope? site.scope with
      | none => rfl
      | some s =>
        have hs := List.mem_of_find?_eq_some hs
        have hchild := hpart.tree.lt_of_mem_children (hpart.tree.child_eq_some_iff.mp hc)
        have hprimary := h.tree.primary hpart.tree hwhole.tree hchild
        dsimp only [Option.map_some]
        rw [hprimary, h.contains_image hpart hs (hpart.tree.primary_lt hchild)]
        split <;> rfl

/-- A path leads to the same in both environments. -/
theorem Embeds.resolve (h : part.Embeds types names r whole) (hpart : part.WellFormed)
    (hwhole : whole.WellFormed) (hsite : site.scope ∈ types) :
    ∀ (tokens : List Token) {node : Nat}, node < part.tree.size →
      whole.resolve site tokens (r node) = (part.resolve site tokens node).map r
  | [], _, _ => rfl
  | token :: rest, node, hlt => by
    rw [Environment.resolve, Environment.resolve,
      h.step? hpart hwhole hsite hlt token.identity]
    cases hstep : part.step? site node token.identity with
    | none => rfl
    | some child =>
      exact Embeds.resolve h hpart hwhole hsite rest
        (hpart.lt_of_inScope (inScope_of_step? hstep)).2

/-- An element of one of the types is bound in both environments. -/
theorem Embeds.binds (h : part.Embeds types names r whole) {role : Role} {node : Nat}
    (hbinds : part.Binds part' site role node) (hbinds' : whole.Binds whole' site role (r node))
    (hsite : site.scope ∈ types) : part'.Embeds types names r whole' := by
  refine h.rebind hbinds.alike hbinds'.alike hbinds.diagnostics hbinds'.diagnostics ?_
  rw [hbinds.bindings, hbinds'.bindings, List.filter_append, h.bindings, List.map_append]
  simp [hsite, Binding.image]

/-- A binding of one of the types comes to the same in both environments. -/
theorem Embeds.bindElement (h : part.Embeds types names r whole) (hpart : part.Orderly)
    (hwhole : whole.Orderly) (settings : TypeNames) {d : Declaration}
    (hsite : d.element.scope ∈ types) :
    Embeds types names r (bindElement settings part d) (bindElement settings whole d) := by
  have hread := (steps_readRoute part d.element d.directive).orderly hpart
  have hread' := (steps_readRoute whole d.element d.directive).orderly hwhole
  obtain ⟨result, memo, memo', hr, hr'⟩ :=
    exists_readRoute hpart.memo hwhole.memo d.element d.directive
  have h' := h.withMemo memo memo'
  rw [hr] at hread
  rw [hr'] at hread'
  unfold Environment.bindElement
  rw [hr, hr']
  split
  · exact h.reportAll (by simpa [Diagnostic.ofError] using hsite)
  · rename_i role _
    cases result with
    | error ds =>
      have hds := (readRoute_failsAt hpart.memo (congrArg Prod.fst hr)).2
      exact h'.reportAll fun x hx => by rwa [(hds x hx).site]
    | ok route =>
      have hresolve := h'.resolve hread.toWellFormed hread'.toWellFormed hsite route.tokens
        hread.tree.root_lt
      rw [h.tree.root] at hresolve
      dsimp only
      rw [hresolve]
      cases hn : Environment.resolve { part with memo } d.element route.tokens 0 with
      | error token =>
        exact h'.reportAll (by simpa [Diagnostic.withSnippet, Diagnostic.ofError] using hsite)
      | ok node =>
        have hleads := (resolve_eq_ok_iff hread).mp hn
        have hlt : node < part.tree.size := hleads.lt hread.toWellFormed hread.tree.root_lt
        have hnone : (part.tree.node node).aliasOf = none :=
          hleads.aliasOf hread.toWellFormed hread.tree.root_aliasOf
        have hnone' : (whole.tree.node (r node)).aliasOf = none := by
          rw [h.tree.aliasOf hpart.tree hwhole.tree hlt, hnone]
          rfl
        exact h.binds (binds_bind hlt hnone memo role d.element)
          (binds_bind (h.tree.lt hlt) hnone' memo' role d.element) hsite

/-! ## Declarations of other types -/

section Outside

variable {text : String} {info : Option ArgumentInfo} {token : Token} {rest : List Token}
  {parent : Nat}

theorem Embeds.reportConflict_outside (h : part.Embeds types names r whole)
    (hsite : site.scope ∉ types) (message : String) :
    part.Embeds types names r (whole.reportConflict site text token message) :=
  h.reportAll_outside (by simpa [Diagnostic.withSnippet, Diagnostic.ofError] using hsite)

/-- Meeting a node outside does not touch the types. -/
theorem Embeds.meet_outside (h : part.Embeds types names r whole) (hsite : site.scope ∉ types)
    (hpart : part.WellFormed) {existing : Nat} (hid : part.tree.Outside r existing)
    (hnone : (whole.tree.node existing).aliasOf = none) (text : String) (token : Token)
    (detail : Detail) :
    part.Embeds types names r (whole.meet site text token detail existing).1 := by
  rcases whole.meet_cases site text token detail existing with
    ⟨-, message, heq⟩ | ⟨-, ⟨-, heq⟩ | ⟨info, -, ⟨message, heq⟩ | ⟨-, heq⟩⟩⟩
  all_goals rw [heq]
  · exact h.reportConflict_outside hsite message
  · exact h
  · exact (h.mergeArgument_outside hpart hid hnone info).reportConflict_outside hsite message
  · exact h.mergeArgument_outside hpart hid hnone info

/-- A token that stands outside leads outside. -/
theorem Embeds.reach_outside (h : part.Embeds types names r whole) (hsite : site.scope ∉ types)
    (hpart : part.WellFormed) (hready : Ready site info (token :: rest) parent whole)
    (text : String)
    (hparent : part.tree.Outside r parent ∨ parent = 0 ∧ token.identity.name ∉ names) :
    part.Embeds types names r (whole.reach site text parent token (detailOf info token rest)).1 ∧
      ∀ node, (whole.reach site text parent token (detailOf info token rest)).2 = some node →
        part.tree.Outside r node := by
  have hwhole := hready.wellFormed
  unfold Environment.reach
  cases hfind : whole.tree.find parent token.identity.name with
  | none =>
    have hnew := Tree.graftable_command hready.lt hready.aliasOf hfind hready.fits (some site)
    refine ⟨h.graft_outside hpart hwhole (Tree.grafted_insert hwhole.tree hnew) hparent (by simp)
      (by simpa using hsite), ?_⟩
    rintro node ⟨⟩ n hn
    exact Nat.ne_of_lt (h.tree.lt hn)
  | some child =>
    have hchild : part.tree.Outside r child := by
      obtain ⟨identity, hname, hmem⟩ := hwhole.tree.find_eq_some_iff.mp hfind
      rw [Tree.primary_of_aliasOf_eq_none hready.aliasOf] at hmem
      obtain ⟨-, rfl, hbelow⟩ := hwhole.tree.child hready.aliasOf hmem
      rcases hparent with hparent | ⟨rfl, hfree⟩
      · exact h.tree.outside_of_parent hpart.tree hwhole.tree hbelow hparent
      · exact h.tree.outside_of_top hpart.tree hwhole.tree hbelow (by rwa [hname])
    have hid := h.tree.outside_primary hpart.tree hwhole.tree hchild
    refine ⟨h.meet_outside hsite hpart hid (hwhole.tree.aliasOf_primary child) text token _, ?_⟩
    intro node hnode
    obtain ⟨rfl, -⟩ := (meet_steps whole site text token _ _).2 node hnode
    exact hid

/-- A word for a node outside does not touch the types. -/
theorem Embeds.addAlias_outside (h : part.Embeds types names r whole) (hsite : site.scope ∉ types)
    (hpart : part.WellFormed) (hwhole : whole.WellFormed) {node : Nat}
    (hstands : whole.Stands parent node .literal) (hnode : part.tree.Outside r node) (text : String)
    (token : Token) {word : String}
    (hparent : part.tree.Outside r parent ∨ parent = 0 ∧ word ∉ names) :
    part.Embeds types names r (whole.addAlias site text token node word) := by
  rw [hstands.addAlias_eq]
  split
  · exact h
  · cases hfind : whole.tree.find parent word with
    | some existing => exact h.reportConflict_outside hsite _
    | none =>
      have hnew := hstands.graftable hwhole hfind
      refine h.graft_outside hpart hwhole (Tree.grafted_pushEntry hwhole.tree hnew hstands.parent)
        hparent ?_ (h.outside hnode)
      rintro id ⟨⟩
      exact hnode

theorem Embeds.foldl_addAlias_outside (h : part.Embeds types names r whole)
    (hsite : site.scope ∉ types) (hpart : part.WellFormed) (hwhole : whole.WellFormed) {node : Nat}
    {kind : Kind} (hstands : whole.Stands parent node kind) (hnode : part.tree.Outside r node)
    (text : String) (token : Token) {words : List String} (hkind : words ≠ [] → kind = .literal)
    (hwords : ∀ word ∈ words, IsName word)
    (hparent : part.tree.Outside r parent ∨ parent = 0 ∧ ∀ word ∈ words, word ∉ names) :
    part.Embeds types names r (words.foldl (Environment.addAlias site text token node) whole) := by
  induction words generalizing whole with
  | nil => exact h
  | cons word rest ih =>
    obtain rfl := hkind (by simp)
    rw [List.forall_mem_cons] at hwords
    have hsteps := addAlias_steps hwhole hstands site text token hwords.1
    refine ih (h.addAlias_outside hsite hpart hwhole hstands hnode text token ?_)
      (hsteps.wellFormed hwhole) (hstands.extends hwhole (hsteps.extends hwhole)) (fun _ => rfl)
      hwords.2 ?_
    · exact hparent.imp_right fun hp => ⟨hp.1, hp.2 word List.mem_cons_self⟩
    · exact hparent.imp_right fun hp => ⟨hp.1, fun w hw => hp.2 w (List.mem_cons_of_mem _ hw)⟩

/-- A walk that starts outside stays there. -/
theorem Embeds.walk_outside (hsite : site.scope ∉ types) (hpart : part.WellFormed) (text : String)
    (info : Option ArgumentInfo) :
    ∀ {tokens : List Token} {parent : Nat} {whole : Environment},
      part.Embeds types names r whole → Ready site info tokens parent whole →
      (part.tree.Outside r parent ∨ parent = 0 ∧ ∀ token ∈ tokens.head?,
        token.identity.name ∉ names ∧ ∀ word ∈ token.aliases, word ∉ names) →
      part.Embeds types names r (Environment.walk site text info tokens parent whole).1
  | [], _, _, h, _, _ => h
  | token :: rest, parent, whole, h, hready, hparent => by
    obtain ⟨h₁, hresult⟩ := h.reach_outside hsite hpart hready text
      (hparent.imp_right fun hp => ⟨hp.1, (hp.2 token rfl).1⟩)
    rw [Environment.walk]
    cases hr : whole.reach site text parent token (detailOf info token rest) with
    | mk whole₁ result =>
      rw [hr] at h₁ hresult
      cases result with
      | none => exact h₁
      | some node =>
        obtain ⟨hsteps, hstands, -, hnext⟩ := hready.next hr
        have hwhole₁ := hsteps.wellFormed hready.wellFormed
        have hnode := hresult node rfl
        have hkind := hready.aliased token List.mem_cons_self
        have hwords := (hready.names token List.mem_cons_self).2
        have h₂ := h₁.foldl_addAlias_outside hsite hpart hwhole₁ hstands hnode text token hkind
          hwords (hparent.imp_right fun hp => ⟨hp.1, (hp.2 token rfl).2⟩)
        have hext := (foldl_addAlias_steps hwhole₁ site text token hstands token.aliases hkind
          hwords).extends hwhole₁
        have hlt := (hwhole₁.tree.parent_lt hstands.parent).2.1
        have h₃ := h₂.enterScope_outside hsite hnode
          (by rw [hext.tree.aliasOf hlt, hstands.aliasOf])
        exact Embeds.walk_outside hsite hpart text info h₃ hnext (Or.inl hnode)

/-- A structural declaration of another type and with another name is placed outside. -/
theorem Embeds.place_outside (h : part.Embeds types names r whole) (hpart : part.WellFormed)
    (hwhole : whole.WellFormed) {d : Declaration} (hd : d.directive.isStructural = true)
    (hsite : d.element.scope ∉ types) (htop : ∀ name ∈ d.topNames, name ∉ names) :
    part.Embeds types names r (whole.place d) := by
  have hread := steps_readRoute whole d.element d.directive
  unfold Environment.place
  cases hr : readRoute d.element d.directive whole.memo with
  | mk result memo =>
    rw [hr] at hread
    have h' := h.withMemo part.memo memo
    cases result with
    | error ds =>
      have hds := (readRoute_failsAt hwhole.memo (congrArg Prod.fst hr)).2
      exact h'.reportAll_outside fun x hx => by rwa [(hds x hx).site]
    | ok route =>
      have hreads := readRoute_reads hwhole.memo (congrArg Prod.fst hr)
      have hready := Ready.start (hread.wellFormed hwhole) d.element hreads.valid
      have hnames := Declaration.mem_topNames hd
        ((fst_readRoute_eq_ok hwhole.memo).mp (congrArg Prod.fst hr))
      refine h'.walk_outside hsite hpart route.text route.info hready (Or.inr ⟨rfl, ?_⟩)
      exact fun token htoken => ⟨htop _ (hnames token htoken).1, fun word hword =>
        htop _ ((hnames token htoken).2 word hword)⟩

theorem Embeds.binds_outside (h : part.Embeds types names r whole) {role : Role} {id : Nat}
    (hbinds : whole.Binds whole' site role id) (hsite : site.scope ∉ types) :
    part.Embeds types names r whole' := by
  refine h.rebind (.refl part) hbinds.alike rfl hbinds.diagnostics ?_
  rw [hbinds.bindings, List.filter_append, h.bindings]
  simp [hsite]

/-- A binding of another type does not touch the types. -/
theorem Embeds.bindElement_outside (h : part.Embeds types names r whole) (hwhole : whole.Orderly)
    (settings : TypeNames) {d : Declaration} (hsite : d.element.scope ∉ types) :
    part.Embeds types names r (Environment.bindElement settings whole d) := by
  rcases bindElement_cases settings hwhole d with
    ⟨memo, added, -, hadded, heq⟩ | ⟨route, role, node, -, -, -, hbinds⟩
  · rw [heq]
    exact (h.withMemo part.memo memo).reportAll_outside fun x hx => by rwa [(hadded x hx).2]
  · exact h.binds_outside hbinds hsite

end Outside

/-! ## Families -/

/-- One family takes its steps in both environments, and the other in one of them. The renaming
grows with the steps of the first. -/
theorem Embeds.foldl {f : Environment → Declaration → Environment}
    (hf : ∀ {env : Environment}, env.Orderly → ∀ d, env.Steps (f env d))
    {as bs all : List Declaration} (hall : Interleaves as bs all)
    (hleft : ∀ d ∈ as, ∀ {r : Nat → Nat} {part whole : Environment}, part.Orderly → whole.Orderly →
      part.Embeds types names r whole → ∃ r', Embeds types names r' (f part d) (f whole d))
    (hright : ∀ d ∈ bs, ∀ {r : Nat → Nat} {part whole : Environment}, part.Orderly → whole.Orderly →
      part.Embeds types names r whole → part.Embeds types names r (f whole d))
    (hpart : part.Orderly) (hwhole : whole.Orderly) (h : part.Embeds types names r whole) :
    ∃ r', Embeds types names r' (as.foldl f part) (all.foldl f whole) := by
  induction hall generalizing r part whole with
  | nil => exact ⟨r, h⟩
  | left d _ ih =>
    rw [List.forall_mem_cons] at hleft
    obtain ⟨r', h'⟩ := hleft.1 hpart hwhole h
    exact ih hleft.2 hright ((hf hpart d).orderly hpart) ((hf hwhole d).orderly hwhole) h'
  | right d _ ih =>
    rw [List.forall_mem_cons] at hright
    exact ih hleft hright.2 hpart ((hf hwhole d).orderly hwhole) (hright.1 hpart hwhole h)

/-- A family that keeps to some types and names, and one that keeps to others. -/
theorem exists_embeds_of_within (settings : Settings) {ds₁ ds₂ ds : List Declaration}
    (hall : Interleaves ds₁ ds₂ ds)
    (hin : ∀ d ∈ ds₁, d.element.scope ∈ types ∧ ∀ name ∈ d.topNames, name ∈ names)
    (hout : ∀ d ∈ ds₂, d.element.scope ∉ types ∧ ∀ name ∈ d.topNames, name ∉ names) :
    ∃ r, Embeds types names r (ofDeclarations settings ds₁) (ofDeclarations settings ds) := by
  obtain ⟨r, hplaced⟩ := Embeds.foldl (fun henv d => place_steps henv.toWellFormed d)
    (hall.filter (·.directive.isStructural))
    (fun d hd _ _ _ hpart hwhole h => by
      obtain ⟨hd, hstructural⟩ := List.mem_filter.mp hd
      exact h.place hpart.toWellFormed hwhole.toWellFormed hstructural (hin d hd).1 (hin d hd).2)
    (fun d hd _ _ _ hpart hwhole h => by
      obtain ⟨hd, hstructural⟩ := List.mem_filter.mp hd
      exact h.place_outside hpart.toWellFormed hwhole.toWellFormed hstructural (hout d hd).1
        (hout d hd).2)
    .empty .empty (.empty types names)
  have horderly : ∀ ds : List Declaration, (ds.foldl place empty).Orderly := fun ds =>
    (foldl_steps place_steps ds .empty).orderly .empty
  exact Embeds.foldl (fun henv d => bindElement_steps settings.types henv.toWellFormed d)
    (hall.filter (!·.directive.isStructural))
    (fun d hd _ _ _ hpart hwhole h =>
      ⟨_, h.bindElement hpart hwhole settings.types (hin d (List.mem_filter.mp hd).1).1⟩)
    (fun d hd _ _ _ _ hwhole h =>
      h.bindElement_outside hwhole settings.types (hout d (List.mem_filter.mp hd).1).1)
    (horderly _) (horderly _) hplaced

/-- If two families have no type and no top-level name in common, the environment of the one is
embedded in that of both. -/
theorem exists_embeds (settings : Settings) {ds₁ ds₂ ds : List Declaration}
    (hall : Interleaves ds₁ ds₂ ds)
    (htypes : ∀ d₁ ∈ ds₁, ∀ d₂ ∈ ds₂, d₁.element.scope ≠ d₂.element.scope)
    (hnames : ∀ d₁ ∈ ds₁, ∀ d₂ ∈ ds₂, ∀ name ∈ d₁.topNames, name ∉ d₂.topNames) :
    ∃ r, Embeds (ds₁.map (·.element.scope)) (ds₁.flatMap (·.topNames)) r
      (ofDeclarations settings ds₁) (ofDeclarations settings ds) := by
  refine exists_embeds_of_within settings hall (fun d hd => ?_) fun d hd => ⟨?_, ?_⟩
  · exact ⟨List.mem_map_of_mem hd, fun name hname => List.mem_flatMap.mpr ⟨d, hd, hname⟩⟩
  · intro hmem
    obtain ⟨d₁, hd₁, heq⟩ := List.mem_map.mp hmem
    exact htypes d₁ hd₁ d hd heq
  · intro name hname hmem
    obtain ⟨d₁, hd₁, hname₁⟩ := List.mem_flatMap.mp hmem
    exact hnames d₁ hd₁ d hd name hname₁ hname

end Environment

end CommandTree
