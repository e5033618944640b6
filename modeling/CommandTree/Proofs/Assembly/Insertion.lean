import CommandTree.Proofs.Assembly.Coverage
import CommandTree.Proofs.Assembly.Order
import Mathlib.Data.List.Infix

/-!
# Assembling is insertion into a trie

Without aliases, a tree is told by the identities of its commands in the order of creation
(`Tree.ways`). A walk that does not stop adds the ways down to its tokens that are not there yet,
the shortest first (`ways_walk`), and one that stops adds none, though it may have come some way
(`tree_place_of_reported`). So the tree is a trie (`Tree.TrieOf`) of the declarations that report
nothing (`accepted`): its ways are those that they mention, each at its first mention, and what is
known of an argument is what the first of them say of it, since the others agree.
-/

namespace CommandTree

open Namespace (Token)

/-! ## First mentions -/

section FirstMentions

variable {α : Type} [DecidableEq α] [BEq α] [LawfulBEq α]

/-- A member that is there already is erased behind a list, and another is put last. -/
theorem eraseDups_concat (as : List α) (a : α) :
    (as ++ [a]).eraseDups = insertLast as.eraseDups a := by
  rw [List.eraseDups_append, insertLast]
  by_cases h : a ∈ as <;> simp [h, List.removeAll, List.mem_eraseDups, List.eraseDups_cons]

/-- What is mentioned later comes behind, unless it was mentioned before. -/
theorem eraseDups_append_eq_foldl (as bs : List α) :
    (as ++ bs).eraseDups = bs.foldl insertLast as.eraseDups := by
  induction bs generalizing as with
  | nil => rw [List.append_nil, List.foldl_nil]
  | cons b bs ih => rw [List.append_cons, ih, eraseDups_concat, List.foldl_cons]

end FirstMentions

/-- The prefixes of a list but the empty one. -/
theorem tail_inits_cons {α : Type} (a : α) (as : List α) :
    (a :: as).inits.tail = [a] :: as.inits.tail.map (a :: ·) := by
  cases as <;> simp

/-! ## What declarations mention -/

/-- What the directive says of an argument. -/
def Directive.info? : Directive → Option ArgumentInfo
  | .argument _ type suggestions => some ⟨some type, suggestions⟩
  | _ => none

namespace Declaration

/-- The identities that the declaration names. There are none if it cannot be read. -/
def identities (d : Declaration) : List Identity :=
  match d.route? with
  | some route => route.tokens.map (·.identity)
  | none => []

/-- What the declaration says of the argument with these identities. -/
def infoOn (ids : List Identity) (d : Declaration) : Option ArgumentInfo :=
  if d.identities = ids then d.directive.info? else none

end Declaration

/-- The commands that declarations mention, each after those above it, at their first mention. -/
def mentioned (ds : List Declaration) : List (List Identity) :=
  (ds.flatMap fun d => d.identities.inits.tail).eraseDups

/-- What the first declarations that say anything of an argument say of it. -/
def declaredInfo (ds : List Declaration) (ids : List Identity) : ArgumentInfo where
  type := ds.findSome? fun d => (d.infoOn ids).bind (·.type)
  suggestions := ds.findSome? fun d => (d.infoOn ids).bind (·.suggestions)

theorem mentioned_concat (ds : List Declaration) (d : Declaration) :
    mentioned (ds ++ [d]) = d.identities.inits.tail.foldl insertLast (mentioned ds) := by
  rw [mentioned, List.flatMap_append, List.flatMap_singleton, eraseDups_append_eq_foldl]
  rfl

/-- The first declaration that tells something of an argument decides it. -/
theorem about_declaredInfo (ds : List Declaration) (ids : List Identity) (aspect : Aspect) :
    (declaredInfo ds ids).about aspect =
      ds.findSome? fun d => (d.infoOn ids).bind (·.about aspect) := by
  cases aspect <;> rfl

theorem Directive.Reads.info_eq {directive : Directive} {route : Route}
    (h : directive.Reads route) : route.info = directive.info? := by
  cases h <;> rfl

/-- Only the last of the tokens says what is known of an argument. -/
theorem Environment.says_known_iff {site : Element} {info : Option ArgumentInfo}
    {tokens : List Token} {ids ids' : List Identity} {aspect : Aspect} {text : String} :
    Says site info ids tokens (.known ids' aspect text) ↔
      tokens ≠ [] ∧ ids' = ids ++ tokens.map (·.identity) ∧
        info.bind (·.about aspect) = some text := by
  induction tokens generalizing ids with
  | nil => exact iff_of_false (fun h => by cases h) fun h => h.1 rfl
  | cons token rest ih =>
    constructor
    · intro h
      cases h with
      | known _ _ hi htext => exact ⟨by simp, rfl, by rw [hi]; exact htext⟩
      | further h =>
        obtain ⟨-, hids, htext⟩ := ih.mp h
        exact ⟨by simp, by simpa using hids, htext⟩
    · rintro ⟨-, rfl, htext⟩
      obtain ⟨i, hi, hi'⟩ := Option.bind_eq_some_iff.mp htext
      cases rest with
      | nil => exact .known ids token hi hi'
      | cons next rest => exact .further (ih.mpr ⟨by simp, by simp, htext⟩)

/-- A declaration says of an argument what it declares. -/
theorem Declaration.declares_known_iff {d : Declaration} {ids : List Identity} (hne : ids ≠ [])
    {aspect : Aspect} {text : String} :
    d.Declares (.known ids aspect text) ↔ (d.infoOn ids).bind (·.about aspect) = some text := by
  unfold Declares infoOn identities
  cases hroute : d.route? with
  | none => simp [hne.symm]
  | some route =>
    have hfst := (fst_readRoute_eq_ok Namespace.Memo.sound_empty).mpr hroute
    have hreads := readRoute_reads Namespace.Memo.sound_empty hfst
    simp only [Option.some.injEq, exists_eq_left', Environment.says_known_iff, List.nil_append,
      hreads.info_eq]
    constructor
    · rintro ⟨-, rfl, htext⟩
      rwa [if_pos rfl]
    · intro h
      split at h
      · rename_i hids
        exact ⟨hreads.valid.tokens_ne, hids.symm, h⟩
      · cases h

/-! ## The ways of a tree -/

namespace Tree

/-- The identities of the commands, in the order of creation. -/
def ways (t : Tree) : List (List Identity) :=
  t.commands.map t.identities

/-- The tree is the trie of the declarations `kept`: its commands are what they mention, in the
order of first mention, and of an argument is known what they first say of it. -/
structure TrieOf (t : Tree) (kept : List Declaration) : Prop where
  ways : t.ways = mentioned kept
  ordered : t.Ordered
  argument : ∀ {n}, n ∈ t.commands → (t.node n).identity.kind = .argument →
    (t.node n).detail = .argument (declaredInfo kept (t.identities n))

/-- A name that is new beside its siblings is a new way. -/
theorem Plain.not_mem_ways {t : Tree} (h : t.Plain) (ht : t.WellFormed) {parent : Nat}
    (hlt : parent < t.size) {identity : Identity} (hfind : t.find parent identity.name = none) :
    t.identities parent ++ [identity] ∉ t.ways := by
  intro hmem
  obtain ⟨n, hn, hids⟩ := List.mem_map.mp hmem
  obtain ⟨hpos, hlt', -⟩ := mem_commands.mp hn
  obtain ⟨p, hp, hpn, -⟩ := ht.parent hpos hlt'
  rw [ht.identities_of_parent hp] at hids
  obtain ⟨hparents, hlast⟩ := List.append_inj' hids rfl
  obtain rfl := ht.identities_inj (by omega) hlt hparents
  obtain rfl := List.singleton_inj.mp hlast
  rw [find_eq_none_iff, h.primary] at hfind
  exact hfind _ (ht.listed hp) rfl

/-- A child that is there is on one of the ways. -/
theorem Plain.mem_ways {t : Tree} (h : t.Plain) (ht : t.WellFormed) {parent child : Nat}
    {identity : Identity} (hfind : t.find parent identity.name = some child)
    (hkind : (t.node child).identity.kind = identity.kind) :
    t.identities parent ++ [identity] ∈ t.ways := by
  obtain ⟨hpos, hlt, -⟩ := ht.parent_lt (h.of_find ht hfind).1
  rw [← h.identities_of_find ht hfind hkind]
  exact List.mem_map_of_mem (mem_commands.mpr ⟨hpos, hlt, h child⟩)

end Tree

namespace Environment

variable {env env' : Environment} {site : Element} {text : String} {info : Option ArgumentInfo}
  {parent : Nat} {token : Token} {rest : List Token} {d : Declaration}

/-- One token of a walk adds the way down to it, if that is not there. -/
theorem ways_reach (h : Ready site info (token :: rest) parent env) (hplain : env.tree.Plain)
    {env₁ : Environment} {node : Nat}
    (hr : env.reach site text parent token (detailOf info token rest) = (env₁, some node)) :
    env₁.tree.ways = insertLast env.tree.ways (env.tree.identities parent ++ [token.identity]) := by
  have hwf := h.wellFormed
  have hsteps := (h.next hr).1
  have hids : env.tree.commands.map env₁.tree.identities = env.tree.ways :=
    List.map_congr_left fun n hn => (hsteps.extends hwf).tree.identities hwf.tree
      (hsteps.wellFormed hwf).tree (Tree.mem_commands.mp hn).2.1
  have hnode := (holds_reach h hplain hr).2.2.1
  cases hfind : env.tree.find parent token.identity.name with
  | none =>
    rw [reach_of_find_eq_none hfind, Prod.mk.injEq, Option.some.injEq] at hr
    obtain ⟨rfl, rfl⟩ := hr
    rw [insertLast, if_neg (hplain.not_mem_ways hwf.tree h.lt hfind), Tree.ways,
      Tree.commands_insert hwf.tree, List.map_append, hids, List.map_singleton, hnode]
  | some child =>
    rw [reach, hfind] at hr
    dsimp only at hr
    rw [hplain.primary] at hr
    have hcommands := env.commands_meet site text token (detailOf info token rest) child
    obtain ⟨-, hkind⟩ := (env.meet_steps site text token (detailOf info token rest) child).2 node
      (by rw [hr])
    rw [hr] at hcommands
    rw [insertLast_of_mem (hplain.mem_ways hwf.tree hfind hkind), Tree.ways, hcommands, hids]

/-- A walk that does not stop adds the ways down to its tokens, the shortest first. -/
theorem ways_walk : ∀ {tokens : List Token} {parent : Nat} {env env' : Environment} {last : Nat},
    Ready site info tokens parent env → env.tree.Plain → (∀ token ∈ tokens, token.aliases = []) →
    walk site text info tokens parent env = (env', some last) →
    env'.tree.ways = ((tokens.map (·.identity)).inits.tail.map
      (env.tree.identities parent ++ ·)).foldl insertLast env.tree.ways
  | [], _, _, _, _, _, _, _, hw => by
    cases hw
    rfl
  | token :: rest, parent, env, env', last, h, hplain, haliases, hw => by
    rw [List.forall_mem_cons] at haliases
    obtain ⟨env₁, node, hr, hnext, hw⟩ := h.walk_next haliases.1 hw
    obtain ⟨-, hplain₁, hids, -⟩ := holds_reach h hplain hr
    rw [ways_walk hnext hplain₁ haliases.2 hw, tree_enterScope, hids, ways_reach h hplain hr,
      List.map_cons, tail_inits_cons, List.map_cons, List.foldl_cons, List.map_map]
    congr 2
    funext ids
    simp

/-! ## Declarations that report nothing, and those that do -/

/-- A declaration that reports nothing adds the ways that it mentions. -/
theorem ways_place (hwf : env.WellFormed) (hplain : env.tree.Plain)
    (haliases : d.directive.aliases = []) (hquiet : (env.place d).diagnostics = env.diagnostics) :
    (env.place d).tree.ways = d.identities.inits.tail.foldl insertLast env.tree.ways := by
  obtain ⟨route, memo, _, hroute, hreads, hready, hwalk⟩ := walk_of_quiet hwf hquiet
  rw [ways_walk hready hplain (hreads.aliases_eq_nil haliases) hwalk, Declaration.identities,
    hroute]
  simp

/-- A declaration that reports anything leaves the tree as it was. -/
theorem tree_place_of_reported (hwf : env.WellFormed) (hplain : env.tree.Plain)
    (hfirst : env.tree.TypeFirst) (haliases : d.directive.aliases = [])
    (hreported : (env.place d).diagnostics ≠ env.diagnostics) : (env.place d).tree = env.tree := by
  obtain ⟨memo, -, ⟨added, -, heq⟩ | ⟨route, hreads, hready, heq⟩⟩ := place_eq hwf d
  · rw [heq]
    rfl
  · rw [heq] at hreported ⊢
    cases hw : walk d.element route.text route.info route.tokens 0 { env with memo } with
    | mk env₁ result =>
      cases result with
      | some last =>
        have hquiet := (holds_walk hready hplain (hreads.aliases_eq_nil haliases) hw).1
        rw [hw] at hreported
        exact absurd hquiet hreported
      | none =>
        obtain ⟨nodes, hstops⟩ := exists_stops_of_walk hready hreads.aliases_of_mem_dropLast
          (congrArg Prod.snd hw)
        obtain ⟨token, message, hwalk⟩ := @walk_of_stops d.element route.text route.info 0 _
          hwf.tree hfirst _ _ hstops hwf.tree.root_aliasOf hreads.aliases_of_mem_dropLast
          { env with memo } rfl
        rw [← hw, hwalk, foldl_enterScope]
        rfl

/-- The declarations that report nothing when they are placed one after the other. -/
def accepted (env : Environment) : List Declaration → List Declaration
  | [] => []
  | d :: ds =>
    if (env.place d).diagnostics = env.diagnostics then
      d :: accepted (env.place d) ds
    else
      accepted (env.place d) ds

/-- The tree of the environment was made by the declarations `kept`. -/
structure MadeBy (env : Environment) (kept : List Declaration) : Prop where
  wellFormed : env.WellFormed
  plain : env.tree.Plain
  typeFirst : env.tree.TypeFirst
  ways : env.tree.ways = mentioned kept
  known : ∀ {ids aspect text}, env.Holds (.known ids aspect text) ↔
    ∃ d ∈ kept, d.Declares (.known ids aspect text)

theorem MadeBy.empty : empty.MadeBy [] :=
  ⟨.empty, .empty, .empty, rfl, Describes.empty.holds_iff⟩

/-- A declaration that reports nothing has a part in the tree. Another has none, since a walk that
stops has met only what was there before. -/
theorem MadeBy.place {kept : List Declaration} (h : env.MadeBy kept)
    (haliases : d.directive.aliases = []) :
    (env.place d).MadeBy
      (if (env.place d).diagnostics = env.diagnostics then kept ++ [d] else kept) := by
  have hwf := h.wellFormed
  have hwf' := (place_steps hwf d).wellFormed hwf
  have hfirst := typeFirst_place hwf h.typeFirst d
  split
  · rename_i hquiet
    obtain ⟨hplain, hholds⟩ := holds_place_iff hwf h.plain haliases hquiet
    refine ⟨hwf', hplain, hfirst, ?_, ?_⟩
    · rw [ways_place hwf h.plain haliases hquiet, h.ways, mentioned_concat]
    · intro ids aspect text
      rw [hholds, h.known]
      simp [or_and_right, exists_or]
  · rename_i hreported
    have htree := tree_place_of_reported hwf h.plain h.typeFirst haliases hreported
    refine ⟨hwf', by rw [htree]; exact h.plain, hfirst, by rw [htree, h.ways], ?_⟩
    intro ids aspect text
    rw [← h.known, Holds, Holds, htree]

/-- The declarations that report nothing have a part in the tree, in their order. -/
theorem MadeBy.foldl {kept ds : List Declaration} (h : env.MadeBy kept)
    (haliases : ∀ d ∈ ds, d.directive.aliases = []) :
    (ds.foldl Environment.place env).MadeBy (kept ++ env.accepted ds) := by
  induction ds generalizing env kept with
  | nil => simpa [accepted] using h
  | cons d ds ih =>
    rw [List.forall_mem_cons] at haliases
    have hplace := h.place haliases.1
    rw [List.foldl_cons, accepted]
    split
    · rename_i hquiet
      rw [if_pos hquiet] at hplace
      rw [List.append_cons]
      exact ih hplace haliases.2
    · rename_i hreported
      rw [if_neg hreported] at hplace
      exact ih hplace haliases.2

/-- What is known of an argument is what is first said of it. -/
theorem MadeBy.about_eq {kept : List Declaration} (h : env.MadeBy kept) {n : Nat} (hpos : 0 < n)
    {i : ArgumentInfo} (hi : (env.tree.node n).detail = .argument i) (aspect : Aspect) :
    i.about aspect = (declaredInfo kept (env.tree.identities n)).about aspect := by
  have hlt := lt_of_argument hi
  have htree := h.wellFormed.tree
  have hne := htree.identities_ne_nil hpos hlt
  rw [about_declaredInfo]
  cases hsaid : kept.findSome? fun d =>
      (d.infoOn (env.tree.identities n)).bind (·.about aspect) with
  | some text =>
    obtain ⟨d, hd, htext⟩ := List.exists_of_findSome?_eq_some hsaid
    obtain ⟨m, j, hids, hj, hj'⟩ :=
      h.known.mpr ⟨d, hd, (Declaration.declares_known_iff hne).mpr htext⟩
    obtain rfl := htree.identities_inj (lt_of_argument hj) hlt hids
    obtain rfl := Detail.argument.inj (hi.symm.trans hj)
    exact hj'
  | none =>
    rw [List.findSome?_eq_none_iff] at hsaid
    by_contra hsome
    obtain ⟨text, htext⟩ := Option.ne_none_iff_exists'.mp hsome
    obtain ⟨d, hd, hdeclares⟩ := h.known.mp ⟨n, i, rfl, hi, htext⟩
    have hnone := hsaid d hd
    rw [(Declaration.declares_known_iff hne).mp hdeclares] at hnone
    cases hnone

/-! ## The order of children -/

/-- A step keeps children in the order of their handles. -/
theorem Step.ordered (h : Step env env') (henv : env.WellFormed) (hordered : env.tree.Ordered) :
    env'.tree.Ordered := by
  cases h with
  | insert h _ => exact hordered.of_grafted henv.tree h (Tree.grafted_insert henv.tree h)
  | merge id info => exact hordered.of_sameLinks (Tree.sameLinks_mergeArgument _ id info)
  | pushEntry h hid _ =>
    exact hordered.of_grafted henv.tree h (Tree.grafted_pushEntry henv.tree h hid)
  | bind role _ => exact hordered.of_sameLinks (Tree.sameLinks_bind _ _ _)
  | _ => exact hordered

theorem Steps.ordered (h : env.Steps env') (henv : env.WellFormed) (hordered : env.tree.Ordered) :
    env'.tree.Ordered := by
  induction h with
  | refl => exact hordered
  | tail hsteps hstep ih => exact hstep.ordered (Steps.wellFormed hsteps henv) ih

/-- Structural declarations without aliases make the trie of those that report nothing. -/
theorem ofDeclarations_trie (settings : Settings) {ds : List Declaration}
    (hstructural : ∀ d ∈ ds, d.directive.isStructural = true)
    (haliases : ∀ d ∈ ds, d.directive.aliases = []) :
    (ofDeclarations settings ds).tree.TrieOf (empty.accepted ds) := by
  have hfolded : ofDeclarations settings ds = ds.foldl place empty := by
    have hbinds : ds.filter (!·.directive.isStructural) = [] :=
      List.filter_eq_nil_iff.mpr fun d hd => by simp [hstructural d hd]
    rw [ofDeclarations, declare, List.filter_eq_self.mpr hstructural, hbinds]
    rfl
  have hmade : (ofDeclarations settings ds).MadeBy (empty.accepted ds) := by
    rw [hfolded]
    simpa using MadeBy.empty.foldl haliases
  refine ⟨hmade.ways, (declare_steps settings.types .empty ds).ordered .empty .empty, ?_⟩
  intro n hn hkind
  obtain ⟨hpos, hlt, -⟩ := Tree.mem_commands.mp hn
  obtain ⟨i, hi⟩ := (hmade.wellFormed.tree.detail hpos hlt).argument_iff.mpr hkind
  have htype := hmade.about_eq hpos hi .type
  have hsuggestions := hmade.about_eq hpos hi .suggestions
  rw [hi]
  congr 1
  cases i
  exact congrArg₂ ArgumentInfo.mk htype hsuggestions

/-- Three of these declarations are refused: a literal where there is an argument, a namespace that
cannot be read, and another type for the argument. -/
theorem teleport_ofDeclarations_trie :
    let run : Element := { owner := some "Teleport", name := "run", kind := .method }
    let home : Element := { owner := some "Home", name := "run", kind := .method }
    let ds : List Declaration := [⟨run, .argument ["tp", "player"] "Player" none⟩,
      ⟨run, .literal ["tp", "player", "now"] []⟩, ⟨home, .command "tp <player> now"⟩,
      ⟨home, .command "home <"⟩, ⟨home, .argument ["tp", "player"] "Player" (some "online")⟩,
      ⟨home, .argument ["tp", "player"] "Item" (some "all")⟩, ⟨home, .command "home"⟩]
    let t := (ofDeclarations {} ds).tree
    let kept := empty.accepted ds
    (∀ d ∈ ds, d.directive.isStructural = true ∧ d.directive.aliases = []) ∧ kept.length = 4 ∧
      t.commands.map t.path = ["tp", "tp <player>", "tp <player> now", "home"] ∧
      declaredInfo kept (t.identities 2) = ⟨some "Player", some "online"⟩ ∧ t.TrieOf kept := by
  intro run home ds t kept
  have hds : ∀ d ∈ ds, d.directive.isStructural = true ∧ d.directive.aliases = [] := by decide
  have hkept : kept.length = 4 := by decide +kernel
  have hpaths : t.commands.map t.path = ["tp", "tp <player>", "tp <player> now", "home"] := by
    decide +kernel
  have hinfo : declaredInfo kept (t.identities 2) = ⟨some "Player", some "online"⟩ := by
    decide +kernel
  exact ⟨hds, hkept, hpaths, hinfo,
    ofDeclarations_trie {} (fun d hd => (hds d hd).1) fun d hd => (hds d hd).2⟩

end Environment

end CommandTree
