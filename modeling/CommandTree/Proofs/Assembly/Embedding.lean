import CommandTree.Proofs.Assembly.Repetition
import CommandTree.Proofs.Tree.Embedding

/-!
# Environments inside of environments

An environment `part` is *embedded* in an environment `whole` (`Environment.Embeds`) with regard to
some types and some top-level names, if its tree is, and if what `whole` has of these types is what
`part` has, in the same order and with the handles renamed: scopes, bindings and diagnostics. The
other types have only nodes outside.

Each operation of an environment keeps the embedding, on nodes inside in both environments and on
nodes outside in `whole` alone. Placing a declaration of these types in both environments keeps it
too, with a renaming that also knows the new nodes (`Embeds.place`).
-/

namespace CommandTree

open Namespace (IsName Memo Token)

/-! ## Scopes and bindings with other handles -/

theorem insertLast_map {α β : Type} [DecidableEq α] [DecidableEq β] {f : α → β} {as : List α}
    {a : α} (h : ∀ b ∈ as, f b = f a → b = a) :
    insertLast (as.map f) (f a) = (insertLast as a).map f := by
  unfold insertLast
  by_cases hmem : a ∈ as
  · rw [if_pos hmem, if_pos (List.mem_map_of_mem hmem)]
  · have hmem' : f a ∉ as.map f := fun hin => by
      obtain ⟨b, hb, heq⟩ := List.mem_map.mp hin
      exact hmem (h b hb heq ▸ hb)
    rw [if_neg hmem, if_neg hmem', List.map_append, List.map_singleton]

namespace Scope

/-- The scope with its handles renamed. -/
def image (r : Nat → Nat) (s : Scope) : Scope :=
  { s with commands := s.commands.map r, nodes := s.nodes.map r }

variable {types : List String} {site : Element} {node : Nat} {isCommand : Bool}
  {scopes : List Scope}

/-- Entering a scope of the types, and the scopes of the types. -/
theorem filter_enter (h : site.scope ∈ types) :
    ((enter site node isCommand scopes).filter fun s => s.name ∈ types) =
      enter site node isCommand (scopes.filter fun s => s.name ∈ types) := by
  induction scopes with
  | nil => simp [enter, h]
  | cons s rest ih =>
    rw [enter]
    by_cases hname : s.name = site.scope
    · rw [if_pos hname, List.filter_cons_of_pos (by simpa [hname] using h),
        List.filter_cons_of_pos (by simpa [hname] using h), enter, if_pos hname]
    · rw [if_neg hname, List.filter_cons, List.filter_cons, ih]
      split
      · rw [enter, if_neg hname]
      · rfl

/-- Entering another scope leaves the scopes of the types as they are. -/
theorem filter_enter_outside (h : site.scope ∉ types) :
    ((enter site node isCommand scopes).filter fun s => s.name ∈ types) =
      scopes.filter fun s => s.name ∈ types := by
  induction scopes with
  | nil => simp [enter, h]
  | cons s rest ih =>
    rw [enter]
    by_cases hname : s.name = site.scope
    · rw [if_pos hname, List.filter_cons_of_neg (by simpa [hname] using h),
        List.filter_cons_of_neg (by simpa [hname] using h)]
    · rw [if_neg hname, List.filter_cons, List.filter_cons, ih]

theorem Rooted.commands_subset {tree : Tree} {s : Scope} (hs : s.Rooted tree) :
    s.commands ⊆ s.nodes := by
  rw [hs.commands]
  exact List.filter_subset_self _

@[simp] theorem name_image (r : Nat → Nat) (s : Scope) : (s.image r).name = s.name :=
  rfl

theorem image_add {r : Nat → Nat} {s : Scope} (hsub : s.commands ⊆ s.nodes)
    (hinj : ∀ n ∈ s.nodes, r n = r node → n = node) :
    (s.image r).add (r node) isCommand = (s.add node isCommand).image r := by
  unfold image add
  dsimp only
  rw [insertLast_map hinj, insertLast_map fun n hn => hinj n (hsub hn)]
  split <;> rfl

/-- A node enters its scope among others as its image enters the image of the scope. -/
theorem enter_map_image {r : Nat → Nat} (hsub : ∀ s ∈ scopes, s.commands ⊆ s.nodes)
    (hinj : ∀ s ∈ scopes, ∀ n ∈ s.nodes, r n = r node → n = node) :
    enter site (r node) isCommand (scopes.map (image r)) =
      (enter site node isCommand scopes).map (image r) := by
  induction scopes with
  | nil =>
    change [((ofSite site).image r).add (r node) isCommand] = _
    rw [image_add (by simp [ofSite]) (by simp [ofSite])]
    rfl
  | cons s rest ih =>
    rw [List.forall_mem_cons] at hsub hinj
    rw [List.map_cons, enter, enter, name_image]
    by_cases hname : s.name = site.scope
    · rw [if_pos hname, if_pos hname, image_add hsub.1 hinj.1, List.map_cons]
    · rw [if_neg hname, if_neg hname, ih hsub.2 hinj.2, List.map_cons]

/-- The handles of a scope are those of its nodes. -/
theorem image_congr {r r' : Nat → Nat} {s : Scope} (hsub : s.commands ⊆ s.nodes)
    (h : ∀ n ∈ s.nodes, r' n = r n) : s.image r' = s.image r := by
  unfold image
  rw [List.map_congr_left h, List.map_congr_left fun n hn => h n (hsub hn)]

end Scope

/-- The binding with its handle renamed. -/
def Binding.image (r : Nat → Nat) (b : Binding) : Binding :=
  { b with node := r b.node }

@[simp] theorem Binding.site_image (r : Nat → Nat) (b : Binding) : (b.image r).site = b.site :=
  rfl

/-- A directive is read as the same from any memory. -/
theorem exists_readRoute {memo memo' : Memo} (hm : memo.Sound) (hm' : memo'.Sound) (site : Element)
    (directive : Directive) : ∃ result m m', readRoute site directive memo = (result, m) ∧
      readRoute site directive memo' = (result, m') :=
  ⟨(readRoute site directive memo).1, (readRoute site directive memo).2,
    (readRoute site directive memo').2, rfl,
    Prod.ext (fst_readRoute_congr hm' hm site directive) rfl⟩

namespace Declaration

/-- The names that a structural declaration asks for right below the root: that of its first token,
and the other names of this token. -/
def topNames (d : Declaration) : List String :=
  match d.directive.isStructural, d.route?.bind (·.tokens.head?) with
  | true, some first => first.identity.name :: first.aliases
  | _, _ => []

/-- The first token of a route has names that the declaration has at the top. -/
theorem mem_topNames {d : Declaration} (hd : d.directive.isStructural = true) {route : Route}
    (h : d.route? = some route) : ∀ token ∈ route.tokens.head?, token.identity.name ∈ d.topNames ∧
      ∀ word ∈ token.aliases, word ∈ d.topNames := by
  intro token htoken
  have heq : d.topNames = token.identity.name :: token.aliases := by
    rw [topNames, hd, h, Option.bind_some, Option.mem_def.mp htoken]
  rw [heq]
  exact ⟨List.mem_cons_self, fun word hword => List.mem_cons_of_mem _ hword⟩

end Declaration

namespace Environment

/-- The renaming `r` takes what is in `part` to what is of these types in `whole`. -/
structure Embeds (types names : List String) (r : Nat → Nat) (part whole : Environment) : Prop where
  tree : part.tree.Embeds names r whole.tree
  /-- Nodes inside were made by the types, and the other nodes by others. -/
  origin : ∀ {id}, ∀ o ∈ (part.tree.node id).origin, o.scope ∈ types
  outside : ∀ {id}, part.tree.Outside r id → ∀ o ∈ (whole.tree.node id).origin, o.scope ∉ types
  scopes : (whole.scopes.filter fun s => s.name ∈ types) = part.scopes.map (.image r)
  others : ∀ {s}, s ∈ whole.scopes → s.name ∉ types → ∀ n ∈ s.nodes, part.tree.Outside r n
  bindings : (whole.bindings.filter fun b => b.site.scope ∈ types) = part.bindings.map (.image r)
  diagnostics : (whole.diagnostics.filter fun d => d.site.scope ∈ types) = part.diagnostics

theorem Embeds.empty (types names : List String) : empty.Embeds types names (fun n => n) empty := by
  have hnode : ∀ id, (Environment.empty.tree.node id).origin = none := fun id => by
    rw [show Environment.empty.tree = Tree.empty from rfl, Tree.node_empty]
    rfl
  refine ⟨.empty names, ?_, ?_, rfl, ?_, rfl, rfl⟩
  · simp [hnode]
  · simp [hnode]
  · simp [Environment.empty]

namespace Embeds

variable {types names : List String} {r : Nat → Nat} {part whole : Environment}
  (h : part.Embeds types names r whole)

include h

theorem withMemo (memo memo' : Memo) :
    Embeds types names r { part with memo } { whole with memo := memo' } :=
  ⟨h.tree, h.origin, h.outside, h.scopes, h.others, h.bindings, h.diagnostics⟩

/-- The types report in both environments. -/
theorem reportAll {ds : List Diagnostic} (hds : ∀ d ∈ ds, d.site.scope ∈ types) :
    (part.reportAll ds).Embeds types names r (whole.reportAll ds) := by
  refine ⟨h.tree, h.origin, h.outside, h.scopes, h.others, h.bindings, ?_⟩
  have hall : (ds.filter fun d => d.site.scope ∈ types) = ds :=
    List.filter_eq_self.mpr (by simpa using hds)
  rw [Environment.reportAll, Environment.reportAll, List.filter_append, h.diagnostics, hall]

/-- Other types report in the whole environment. -/
theorem reportAll_outside {ds : List Diagnostic} (hds : ∀ d ∈ ds, d.site.scope ∉ types) :
    part.Embeds types names r (whole.reportAll ds) := by
  refine ⟨h.tree, h.origin, h.outside, h.scopes, h.others, h.bindings, ?_⟩
  have hnone : (ds.filter fun d => d.site.scope ∈ types) = [] :=
    List.filter_eq_nil_iff.mpr (by simpa using hds)
  rw [Environment.reportAll, List.filter_append, h.diagnostics, hnone, List.append_nil]

/-! ## New nodes -/

/-- A node is grafted in both trees, by one of the types. -/
theorem graft (hpart : part.WellFormed) (hwhole : whole.WellFormed) {p : Nat} {new new' : Node}
    {tree tree' : Tree} (hnew : part.tree.Graftable p new) (hgrafted : part.tree.Grafted p new tree)
    (hgrafted' : whole.tree.Grafted (r p) new' tree') (himage : new'.bare = new.image r)
    (htop : p = 0 → new.identity.name ∈ names) (horigin : ∀ o ∈ new.origin, o.scope ∈ types) :
    ∃ r', (∀ n < part.tree.size, r' n = r n) ∧ r' part.tree.size = whole.tree.size ∧
      Embeds types names r' { part with tree } { whole with tree := tree' } := by
  have hlast : Function.update r part.tree.size whole.tree.size part.tree.size = whole.tree.size :=
    Function.update_self _ _ _
  have hold : ∀ n < part.tree.size,
      Function.update r part.tree.size whole.tree.size n = r n := fun n hn =>
    Function.update_of_ne (Nat.ne_of_lt hn) _ _
  generalize Function.update r part.tree.size whole.tree.size = r' at hlast hold
  have hsize := hgrafted.size
  have houtside : ∀ {id}, tree.Outside r' id → id ≠ whole.tree.size ∧ part.tree.Outside r id := by
    intro id hid
    refine ⟨fun heq => hid part.tree.size (by omega) (hlast.trans heq.symm), fun n hn => ?_⟩
    rw [← hold n hn]
    exact hid n (by omega)
  refine ⟨r', hold, hlast,
    h.tree.graft hpart.tree hwhole.tree hnew hgrafted hgrafted' himage hlast hold htop, ?_, ?_, ?_,
    ?_, ?_, h.diagnostics⟩
  · intro id
    rw [hgrafted.node]
    split
    · exact horigin
    · exact h.origin
  · intro id hid
    obtain ⟨hne, hid⟩ := houtside hid
    rw [hgrafted'.node, if_neg hne]
    exact h.outside hid
  · dsimp only
    rw [h.scopes]
    refine List.map_congr_left fun s hs => ?_
    exact (Scope.image_congr (hpart.rooted hs).commands_subset
      fun n hn => hold n (hpart.node_lt hs hn).2).symm
  · intro s hs hname n hn m hm
    dsimp only at hm
    by_cases hms : m = part.tree.size
    · rw [hms, hlast]
      exact Nat.ne_of_gt (hwhole.node_lt hs hn).2
    · rw [hold m (by omega)]
      exact h.others hs hname n hn m (by omega)
  · dsimp only
    rw [h.bindings]
    refine List.map_congr_left fun b hb => ?_
    rw [Binding.image, Binding.image, hold _ (hpart.bound_lt hb)]

/-- A node is grafted outside, by another type. -/
theorem graft_outside (hpart : part.WellFormed) (hwhole : whole.WellFormed) {p : Nat} {new : Node}
    {tree : Tree} (hgrafted : whole.tree.Grafted p new tree)
    (hp : part.tree.Outside r p ∨ p = 0 ∧ new.identity.name ∉ names)
    (hnew : ∀ id ∈ new.aliasOf, part.tree.Outside r id)
    (horigin : ∀ o ∈ new.origin, o.scope ∉ types) :
    Embeds types names r part { whole with tree } := by
  refine ⟨h.tree.graft_outside hpart.tree hwhole.tree hgrafted hp hnew, h.origin, ?_, h.scopes,
    h.others, h.bindings, h.diagnostics⟩
  intro id hid
  rw [hgrafted.node]
  split
  · exact horigin
  · exact h.outside hid

/-- What is known of an argument changes in both trees. -/
theorem mergeArgument (hpart : part.WellFormed) (hwhole : whole.WellFormed) {n : Nat} (hpos : 0 < n)
    (hlt : n < part.tree.size) (hnone : (part.tree.node n).aliasOf = none) (info : ArgumentInfo) :
    Embeds types names r { part with tree := (part.tree.mergeArgument n info).1 }
      { whole with tree := (whole.tree.mergeArgument (r n) info).1 } := by
  have hsize := part.tree.size_mergeArgument n info
  refine ⟨(h.tree.mergeArgument hpart.tree hwhole.tree hpos hlt hnone info).2, ?_, ?_, h.scopes, ?_,
    h.bindings, h.diagnostics⟩
  · intro id
    rw [Tree.origin_mergeArgument]
    exact h.origin
  · intro id hid
    rw [Tree.origin_mergeArgument]
    exact h.outside fun n hn => hid n (hsize ▸ hn)
  · exact fun hs hname n hn m hm => h.others hs hname n hn m (hsize ▸ hm)

/-- What is known of an argument changes outside. -/
theorem mergeArgument_outside (hpart : part.WellFormed) {id : Nat} (hid : part.tree.Outside r id)
    (hnone : (whole.tree.node id).aliasOf = none) (info : ArgumentInfo) :
    Embeds types names r part { whole with tree := (whole.tree.mergeArgument id info).1 } := by
  refine ⟨h.tree.mergeArgument_outside hpart.tree hid hnone info, h.origin, ?_, h.scopes, h.others,
    h.bindings, h.diagnostics⟩
  intro id' hid'
  rw [Tree.origin_mergeArgument]
  exact h.outside hid'

/-! ## Scopes -/

/-- A node enters the scope of one of the types. -/
theorem enterScope (hpart : part.WellFormed) (hwhole : whole.WellFormed) {site : Element}
    (hsite : site.scope ∈ types) {n : Nat} (hlt : n < part.tree.size)
    (hnone : (part.tree.node n).aliasOf = none) :
    (part.enterScope site n).Embeds types names r (whole.enterScope site (r n)) := by
  have hprimary := Tree.primary_of_aliasOf_eq_none hnone
  have hprimary' := h.tree.primary hpart.tree hwhole.tree hlt
  rw [hprimary] at hprimary'
  have hcommand : ((whole.tree.node (r n)).parent == some 0) =
      ((part.tree.node n).parent == some 0) := by
    rw [h.tree.parent hpart.tree hwhole.tree hlt]
    cases hp : (part.tree.node n).parent with
    | none => rfl
    | some p =>
      have := h.tree.eq_zero_iff (Nat.lt_trans (hpart.tree.parent_lt hp).2.2.1 hlt)
      exact Bool.eq_iff_iff.mpr (by simpa using this)
  unfold Environment.enterScope
  rw [hprimary, hprimary']
  dsimp only
  rw [hcommand]
  refine ⟨h.tree, h.origin, h.outside, ?_, ?_, h.bindings, h.diagnostics⟩
  · dsimp only
    rw [Scope.filter_enter hsite, h.scopes,
      Scope.enter_map_image (fun s hs => (hpart.rooted hs).commands_subset)
        fun s hs m hm heq => h.tree.inj (hpart.node_lt hs hm).2 hlt heq]
  · intro s hs hname
    rcases Scope.mem_enter hs with hs | ⟨old, rfl, hold, -⟩
    · exact h.others hs hname
    · exact absurd (by rwa [Scope.name_add, hold]) hname

/-- A node outside enters the scope of another type. -/
theorem enterScope_outside {site : Element} (hsite : site.scope ∉ types) {id : Nat}
    (hid : part.tree.Outside r id) (hnone : (whole.tree.node id).aliasOf = none) :
    part.Embeds types names r (whole.enterScope site id) := by
  unfold Environment.enterScope
  rw [Tree.primary_of_aliasOf_eq_none hnone]
  refine ⟨h.tree, h.origin, h.outside, ?_, ?_, h.bindings, h.diagnostics⟩
  · dsimp only
    rw [Scope.filter_enter_outside hsite, h.scopes]
  · intro s hs hname n hn
    rcases Scope.mem_enter hs with hs | ⟨old, rfl, hold, hor⟩
    · exact h.others hs hname n hn
    · rcases Scope.mem_nodes_add.mp hn with hn | rfl
      · rcases hor with hmem | ⟨rfl, -⟩
        · exact h.others hmem hname n hn
        · cases hn
      · exact hid

end Embeds

/-! ## Placing commands of the types -/

section Inside

variable {types names : List String} {r : Nat → Nat} {part whole : Environment} {site : Element}
  {text : String} {info : Option ArgumentInfo} {token : Token} {rest : List Token} {parent : Nat}

theorem Embeds.reportConflict (h : part.Embeds types names r whole) (hsite : site.scope ∈ types)
    (message : String) : (part.reportConflict site text token message).Embeds types names r
      (whole.reportConflict site text token message) :=
  h.reportAll (by simpa [Diagnostic.withSnippet, Diagnostic.ofError] using hsite)

/-- A node is met with the same outcome in both environments. -/
theorem Embeds.meet (h : part.Embeds types names r whole) (hsite : site.scope ∈ types)
    (hpart : part.WellFormed) (hwhole : whole.WellFormed) {existing : Nat} (hpos : 0 < existing)
    (hlt : existing < part.tree.size) (hnone : (part.tree.node existing).aliasOf = none)
    (text : String) (token : Token) (detail : Detail) :
    Embeds types names r (part.meet site text token detail existing).1
        (whole.meet site text token detail (r existing)).1 ∧
      (whole.meet site text token detail (r existing)).2 =
        (part.meet site text token detail existing).2.map r := by
  have hpath := h.tree.path hpart.tree hwhole.tree hlt
  unfold Environment.meet
  rw [h.tree.identity hpos hlt, hpath]
  dsimp only
  split
  · cases detail with
    | argument info =>
      have hmerged := h.mergeArgument hpart hwhole hpos hlt hnone info
      have hconflict := (h.tree.mergeArgument hpart.tree hwhole.tree hpos hlt hnone info).1
      have hpath := hmerged.tree.path (hpart.tree.mergeArgument existing info)
        (hwhole.tree.mergeArgument (r existing) info) (by simpa using hlt)
      dsimp only at hpath ⊢
      rw [hconflict, hpath]
      cases (part.tree.mergeArgument existing info).2 with
      | none => exact ⟨hmerged, rfl⟩
      | some conflict => exact ⟨hmerged.reportConflict hsite _, rfl⟩
    | _ => exact ⟨h, rfl⟩
  · exact ⟨h.reportConflict hsite _, rfl⟩

/-- A token comes to the same in both environments. -/
theorem Embeds.reach (h : part.Embeds types names r whole) (hsite : site.scope ∈ types)
    (hready : Ready site info (token :: rest) parent part)
    (hready' : Ready site info (token :: rest) (r parent) whole) (text : String)
    (htop : parent = 0 → token.identity.name ∈ names) :
    ∃ r', (∀ n < part.tree.size, r' n = r n) ∧
      Embeds types names r' (part.reach site text parent token (detailOf info token rest)).1
        (whole.reach site text (r parent) token (detailOf info token rest)).1 ∧
      (whole.reach site text (r parent) token (detailOf info token rest)).2 =
        (part.reach site text parent token (detailOf info token rest)).2.map r' := by
  have hpart := hready.wellFormed
  have hwhole := hready'.wellFormed
  have hfind' := h.tree.find hpart.tree hwhole.tree hready.lt htop
  cases hfind : part.tree.find parent token.identity.name with
  | none =>
    rw [hfind, Option.map_none] at hfind'
    have hnew := Tree.graftable_command hready.lt hready.aliasOf hfind hready.fits (some site)
    have hnew' := Tree.graftable_command hready'.lt hready'.aliasOf hfind' hready'.fits (some site)
    obtain ⟨r', hold, hlast, hgraft⟩ := h.graft hpart hwhole hnew
      (Tree.grafted_insert hpart.tree hnew) (Tree.grafted_insert hwhole.tree hnew') rfl htop
      (by simpa using hsite)
    rw [Environment.reach, Environment.reach, hfind, hfind']
    exact ⟨r', hold, hgraft, congrArg some hlast.symm⟩
  | some child =>
    rw [hfind, Option.map_some] at hfind'
    have hprimary := h.tree.primary hpart.tree hwhole.tree (hpart.tree.find_lt hfind).1
    obtain ⟨hpos, hlt, -⟩ := hpart.tree.parent_lt (hpart.tree.parent_of_find hready.aliasOf hfind)
    obtain ⟨hmeet, hresult⟩ := h.meet hsite hpart hwhole hpos hlt
      (hpart.tree.aliasOf_primary child) text token (detailOf info token rest)
    rw [Environment.reach, Environment.reach, hfind, hfind']
    dsimp only
    rw [hprimary]
    exact ⟨r, fun _ _ => rfl, hmeet, hresult⟩

/-- What a word for a literal comes to. -/
theorem Stands.addAlias_eq {env : Environment} {node : Nat} (h : env.Stands parent node .literal)
    (site : Element) (text : String) (token : Token) (word : String) :
    env.addAlias site text token node word =
      if word ∈ (env.tree.node node).aliases then env
      else match env.tree.find parent word with
        | some existing => env.reportConflict site text token
            (Conflict.takenName word (env.tree.node existing).identity).message
        | none => { env with tree := env.tree.pushEntry node parent word } := by
  unfold Environment.addAlias Tree.addAlias
  rw [Tree.primary_of_aliasOf_eq_none h.aliasOf]
  by_cases hmem : word ∈ (env.tree.node node).aliases
  · simp [hmem]
  · simp only [hmem, if_false, h.parent]
    cases env.tree.find parent word <;> rfl

theorem Embeds.stands (h : part.Embeds types names r whole) (hpart : part.WellFormed)
    (hwhole : whole.WellFormed) {node : Nat} {kind : Kind}
    (hstands : part.Stands parent node kind) :
    whole.Stands (r parent) (r node) kind := by
  obtain ⟨hpos, hlt, -⟩ := hpart.tree.parent_lt hstands.parent
  refine ⟨?_, ?_, ?_⟩
  · rw [h.tree.aliasOf hpart.tree hwhole.tree hlt, hstands.aliasOf]
    rfl
  · rw [h.tree.parent hpart.tree hwhole.tree hlt, hstands.parent]
    rfl
  · rw [h.tree.identity hpos hlt, hstands.kind]

/-- A word is given to a node in both environments, or in none. -/
theorem Embeds.addAlias (h : part.Embeds types names r whole) (hsite : site.scope ∈ types)
    (hpart : part.WellFormed) (hwhole : whole.WellFormed) {node : Nat}
    (hstands : part.Stands parent node .literal) (text : String) (token : Token) {word : String}
    (htop : parent = 0 → word ∈ names) :
    ∃ r', (∀ n < part.tree.size, r' n = r n) ∧
      Embeds types names r' (part.addAlias site text token node word)
        (whole.addAlias site text token (r node) word) := by
  have hstands' := h.stands hpart hwhole hstands
  obtain ⟨hpos, hlt, hparent, -⟩ := hpart.tree.parent_lt hstands.parent
  have hfind' := h.tree.find hpart.tree hwhole.tree (Nat.lt_trans hparent hlt) htop
  rw [hstands.addAlias_eq, hstands'.addAlias_eq, h.tree.aliases hpos hlt, hfind']
  by_cases hmem : word ∈ (part.tree.node node).aliases
  · rw [if_pos hmem, if_pos hmem]
    exact ⟨r, fun _ _ => rfl, h⟩
  · rw [if_neg hmem, if_neg hmem]
    cases hfind : part.tree.find parent word with
    | some existing =>
      obtain ⟨identity, -, hmem⟩ := hpart.tree.find_eq_some_iff.mp hfind
      obtain ⟨hexisting, -, hbelow⟩ := hpart.tree.child (hpart.tree.aliasOf_primary parent) hmem
      dsimp only [Option.map_some]
      rw [h.tree.identity (hpart.tree.parent_lt hbelow).1 hexisting]
      exact ⟨r, fun _ _ => rfl, h.reportConflict hsite _⟩
    | none =>
      rw [hfind] at hfind'
      have hnew := hstands.graftable hpart hfind
      have hnew' := hstands'.graftable hwhole hfind'
      have himage : (whole.tree.aliasEntry (r node) (r parent) word).bare =
          (part.tree.aliasEntry node parent word).image r := by
        simp only [Tree.aliasEntry, Node.bare, Node.image, h.tree.children hpos hlt,
          h.tree.origin hpos hlt, Option.map_some, List.map_nil]
      obtain ⟨r', hold, -, hgraft⟩ := h.graft hpart hwhole hnew
        (Tree.grafted_pushEntry hpart.tree hnew hstands.parent)
        (Tree.grafted_pushEntry hwhole.tree hnew' hstands'.parent) himage htop h.origin
      exact ⟨r', hold, hgraft⟩

/-- Words are given to a node in both environments, or in none. -/
theorem Embeds.foldl_addAlias (h : part.Embeds types names r whole) (hsite : site.scope ∈ types)
    (hpart : part.WellFormed) (hwhole : whole.WellFormed) {node : Nat} {kind : Kind}
    (hstands : part.Stands parent node kind) (text : String) (token : Token) {words : List String}
    (hkind : words ≠ [] → kind = .literal) (hwords : ∀ word ∈ words, IsName word)
    (htop : parent = 0 → ∀ word ∈ words, word ∈ names) :
    ∃ r', (∀ n < part.tree.size, r' n = r n) ∧
      Embeds types names r' (words.foldl (Environment.addAlias site text token node) part)
        (words.foldl (Environment.addAlias site text token (r node)) whole) := by
  induction words generalizing r part whole with
  | nil => exact ⟨r, fun _ _ => rfl, h⟩
  | cons word rest ih =>
    obtain rfl := hkind (by simp)
    rw [List.forall_mem_cons] at hwords
    obtain ⟨r₁, hold₁, h₁⟩ := h.addAlias hsite hpart hwhole hstands text token
      fun hzero => htop hzero word List.mem_cons_self
    have hsteps := addAlias_steps hpart hstands site text token hwords.1
    have hsteps' := addAlias_steps hwhole (h.stands hpart hwhole hstands) site text token hwords.1
    have hext := hsteps.extends hpart
    have hlt := (hpart.tree.parent_lt hstands.parent).2.1
    obtain ⟨r₂, hold₂, h₂⟩ := ih h₁ (hsteps.wellFormed hpart) (hsteps'.wellFormed hwhole)
      (hstands.extends hpart hext) (fun _ => rfl) hwords.2
      fun hzero w hw => htop hzero w (List.mem_cons_of_mem _ hw)
    refine ⟨r₂, fun n hn => ?_, ?_⟩
    · rw [hold₂ n (Nat.lt_of_lt_of_le hn hext.tree.size_le), hold₁ n hn]
    · rwa [hold₁ node hlt] at h₂

/-- A node gets its other names and enters the scope in both environments. -/
theorem Embeds.settle (h : part.Embeds types names r whole) (hsite : site.scope ∈ types)
    (hpart : part.WellFormed) (hwhole : whole.WellFormed) {node : Nat}
    (hstands : part.Stands parent node token.identity.kind) (text : String)
    (hkind : token.aliases ≠ [] → token.identity.kind = .literal)
    (hwords : ∀ word ∈ token.aliases, IsName word)
    (htop : parent = 0 → ∀ word ∈ token.aliases, word ∈ names) :
    ∃ r', r' node = r node ∧ Embeds types names r' (part.settle site text token node)
      (whole.settle site text token (r node)) := by
  obtain ⟨r', hold, h'⟩ := h.foldl_addAlias hsite hpart hwhole hstands text token hkind hwords htop
  have hsteps := foldl_addAlias_steps hpart site text token hstands token.aliases hkind hwords
  have hsteps' := foldl_addAlias_steps hwhole site text token (h.stands hpart hwhole hstands)
    token.aliases hkind hwords
  have hext := hsteps.extends hpart
  have hlt := (hpart.tree.parent_lt hstands.parent).2.1
  refine ⟨r', hold node hlt, ?_⟩
  have henter := h'.enterScope (hsteps.wellFormed hpart) (hsteps'.wellFormed hwhole) hsite
    (Nat.lt_of_lt_of_le hlt hext.tree.size_le) (by rw [hext.tree.aliasOf hlt, hstands.aliasOf])
  rwa [hold node hlt] at henter

/-- A walk comes to the same in both environments. -/
theorem Embeds.walk (hsite : site.scope ∈ types) (text : String) (info : Option ArgumentInfo) :
    ∀ {tokens : List Token} {parent : Nat} {r : Nat → Nat} {part whole : Environment},
      part.Embeds types names r whole → Ready site info tokens parent part →
      Ready site info tokens (r parent) whole →
      (parent = 0 → ∀ token ∈ tokens.head?, token.identity.name ∈ names ∧
        ∀ word ∈ token.aliases, word ∈ names) →
      ∃ r', Embeds types names r' (walk site text info tokens parent part).1
        (walk site text info tokens (r parent) whole).1
  | [], _, r, _, _, h, _, _, _ => ⟨r, h⟩
  | token :: rest, parent, r, part, whole, h, hready, hready', htop => by
    obtain ⟨r₁, -, h₁, hresult⟩ := h.reach hsite hready hready' text
      fun hzero => (htop hzero token rfl).1
    rw [Environment.walk, Environment.walk]
    cases hr : part.reach site text parent token (detailOf info token rest) with
    | mk part₁ result =>
      cases hr' : whole.reach site text (r parent) token (detailOf info token rest) with
      | mk whole₁ result' =>
        rw [hr, hr'] at h₁ hresult
        dsimp only at h₁ hresult
        cases result with
        | none =>
          cases hresult
          exact ⟨r₁, h₁⟩
        | some node =>
          cases hresult
          obtain ⟨hsteps, hstands, -, hnext⟩ := hready.next hr
          obtain ⟨hsteps', -, -, hnext'⟩ := hready'.next hr'
          obtain ⟨r₂, hnode, h₂⟩ := h₁.settle hsite (hsteps.wellFormed hready.wellFormed)
            (hsteps'.wellFormed hready'.wellFormed) hstands text
            (hready.aliased token List.mem_cons_self)
            (hready.names token List.mem_cons_self).2 fun hzero => (htop hzero token rfl).2
          rw [← hnode] at hnext' h₂
          have hpos := ((hsteps.wellFormed hready.wellFormed).tree.parent_lt hstands.parent).1
          have hrest := Embeds.walk hsite text info h₂ hnext hnext'
            fun hzero => absurd hzero (Nat.ne_of_gt hpos)
          rwa [hnode] at hrest

/-- A structural declaration of one of the types is placed in both environments. -/
theorem Embeds.place (h : part.Embeds types names r whole) (hpart : part.WellFormed)
    (hwhole : whole.WellFormed) {d : Declaration} (hd : d.directive.isStructural = true)
    (hsite : d.element.scope ∈ types) (htop : ∀ name ∈ d.topNames, name ∈ names) :
    ∃ r', Embeds types names r' (part.place d) (whole.place d) := by
  have hread := steps_readRoute part d.element d.directive
  have hread' := steps_readRoute whole d.element d.directive
  obtain ⟨result, memo, memo', hr, hr'⟩ :=
    exists_readRoute hpart.memo hwhole.memo d.element d.directive
  have h' := h.withMemo memo memo'
  rw [hr] at hread
  rw [hr'] at hread'
  unfold Environment.place
  rw [hr, hr']
  cases result with
  | error ds =>
    have hds := (readRoute_failsAt hpart.memo (congrArg Prod.fst hr)).2
    exact ⟨r, h'.reportAll fun x hx => by rwa [(hds x hx).site]⟩
  | ok route =>
    have hreads := readRoute_reads hpart.memo (congrArg Prod.fst hr)
    have hready := Ready.start (hread.wellFormed hpart) d.element hreads.valid
    have hready' := Ready.start (hread'.wellFormed hwhole) d.element hreads.valid
    have hnames := Declaration.mem_topNames hd
      ((fst_readRoute_eq_ok hpart.memo).mp (congrArg Prod.fst hr))
    rw [← h.tree.root] at hready'
    have hwalk := h'.walk hsite route.text route.info hready hready' fun _ token htoken =>
      ⟨htop _ (hnames token htoken).1, fun word hword =>
        htop _ ((hnames token htoken).2 word hword)⟩
    rwa [h.tree.root] at hwalk

end Inside

end Environment

end CommandTree
