import CommandTree.Proofs.Assembly.Repetition

/-!
# Declarations that contradict the tree

A walk stops at the first token that contradicts the tree: the node that has its name is of the
other kind, or another type or other suggestions are known of the argument. `Tree.Stops` says so of
the tree as it is before the walk, and a walk stops exactly then (`walk_eq_none_iff`): below a node
that is new there is nothing to contradict.

A walk that stops has changed nothing in the tree (`walk_of_stops`). The nodes on its way were there
and only entered the scope. At the end it may have filled in the type before it found other
suggestions, but suggestions are known only of an argument whose type is known
(`Reached.typeFirst`), so there was no type to fill in.
-/

namespace CommandTree

open Namespace (Token)

/-! ## What is known of an argument -/

namespace ArgumentInfo

/-- Another type or other suggestions are known than those that are declared. -/
def Differs (known incoming : ArgumentInfo) : Prop :=
  (∃ x y, known.type = some x ∧ incoming.type = some y ∧ x ≠ y) ∨
    ∃ x y, known.suggestions = some x ∧ incoming.suggestions = some y ∧ x ≠ y

/-- Suggestions are known only if the type is. -/
def TypeFirst (info : ArgumentInfo) : Prop :=
  info.type = none → info.suggestions = none

/-- Filling in fails exactly if both values are there and differ. -/
theorem fill_eq_error_iff {conflict : String → String → Conflict}
    {existing incoming : Option String} :
    (∃ c, fill conflict existing incoming = .error c) ↔
      ∃ x y, existing = some x ∧ incoming = some y ∧ x ≠ y := by
  cases existing with
  | none => simp [fill]
  | some x =>
    cases incoming with
    | none => simp [fill]
    | some y => by_cases h : x = y <;> simp [fill, h]

/-- A conflict is reported exactly if there is a difference. -/
theorem merge_eq_none_iff {known incoming : ArgumentInfo} :
    (known.merge incoming).2 = none ↔ ¬known.Differs incoming := by
  unfold Differs
  rw [← @fill_eq_error_iff .differentType, ← @fill_eq_error_iff .differentSuggestions]
  unfold merge
  cases fill Conflict.differentType known.type incoming.type with
  | error c => simp
  | ok type =>
    cases fill Conflict.differentSuggestions known.suggestions incoming.suggestions with
    | error c => simp
    | ok suggestions => simp

/-- Before a conflict nothing is filled in: suggestions that differ are known only if the type
is. -/
theorem TypeFirst.merge_of_conflict {known incoming : ArgumentInfo} (h : known.TypeFirst)
    (hconflict : (known.merge incoming).2 ≠ none) : (known.merge incoming).1 = known := by
  unfold merge at hconflict ⊢
  split
  · rfl
  · rename_i type htype
    rw [htype] at hconflict
    dsimp only at hconflict
    split
    · rename_i c hc
      obtain ⟨x, -, hx, -⟩ := fill_eq_error_iff.mp ⟨c, hc⟩
      obtain ⟨t, ht⟩ := Option.ne_none_iff_exists'.mp fun hnone => by simp [h hnone] at hx
      rw [(fill_eq_ok htype).1 ht, ← ht]
    · rename_i suggestions hsuggestions
      simp [hsuggestions] at hconflict

/-- Merging keeps the order in which things become known: no suggestions without a type. -/
theorem TypeFirst.merge {known incoming : ArgumentInfo} (h : known.TypeFirst)
    (h' : incoming.TypeFirst) : (known.merge incoming).1.TypeFirst := by
  intro hnone
  have hext := known.extends_merge incoming
  have hknown : known.type = none := by
    by_contra hne
    obtain ⟨x, hx⟩ := Option.ne_none_iff_exists'.mp hne
    simp [hext.type hx] at hnone
  cases hconflict : (known.merge incoming).2 with
  | some c =>
    rw [h.merge_of_conflict (by simp [hconflict])]
    exact h hknown
  | none =>
    have hincoming : incoming.type = none := by
      by_contra hne
      obtain ⟨x, hx⟩ := Option.ne_none_iff_exists'.mp hne
      simp [(extends_merge_incoming hconflict).type hx] at hnone
    simp [ArgumentInfo.merge, fill, hknown, hincoming, h hknown, h' hincoming]

end ArgumentInfo

/-- Suggestions are known of an argument only if its type is. -/
def Detail.TypeFirst : Detail → Prop
  | .argument info => info.TypeFirst
  | _ => True

theorem Detail.typeFirst_ofKind (kind : Kind) : (Detail.ofKind kind).TypeFirst := by
  cases kind with
  | literal => trivial
  | argument => exact fun _ => rfl

namespace Tree

/-- Suggestions are known only of arguments whose type is known. -/
def TypeFirst (t : Tree) : Prop :=
  ∀ id, (t.node id).detail.TypeFirst

theorem TypeFirst.empty : empty.TypeFirst := by
  intro id
  rw [node_empty]
  trivial

theorem detail_attach (t : Tree) (parent child id : Nat) :
    ((t.attach parent child).node id).detail = (t.node id).detail := by
  rw [node_attach_primary]
  split <;> rfl

variable {t : Tree} (ht : t.TypeFirst)

include ht

theorem TypeFirst.push {n : Node} (hn : n.detail.TypeFirst) : (t.push n).TypeFirst := by
  intro id
  rw [node_push]
  split
  · exact hn
  · exact ht id

theorem TypeFirst.attach (parent child : Nat) : (t.attach parent child).TypeFirst := by
  intro id
  rw [detail_attach]
  exact ht id

theorem TypeFirst.modify {target : Nat} {f : Node → Node}
    (hf : (f (t.node target)).detail.TypeFirst) : (t.modify target f).TypeFirst := by
  intro id
  rw [node_modify]
  split
  · rename_i h
    rw [h.1]
    exact hf
  · exact ht id

theorem TypeFirst.insert {parent : Nat} {identity : Identity} {detail : Detail}
    {origin : Option Element} (hdetail : detail.TypeFirst) :
    (t.insert parent identity detail origin).TypeFirst :=
  TypeFirst.attach (ht.push hdetail) _ _

theorem TypeFirst.pushEntry (id parent : Nat) (word : String) :
    (t.pushEntry id parent word).TypeFirst := by
  have hpush : (t.push (t.aliasEntry id parent word)).TypeFirst := ht.push trivial
  rw [pushEntry_eq]
  exact TypeFirst.attach (hpush.modify (hpush id)) _ _

theorem TypeFirst.mergeArgument (id : Nat) {info : ArgumentInfo} (hinfo : info.TypeFirst) :
    (t.mergeArgument id info).1.TypeFirst := by
  unfold Tree.mergeArgument
  dsimp only
  split
  · rename_i known hknown
    have hfirst := ht (t.primary id)
    rw [hknown] at hfirst
    exact ht.modify (ArgumentInfo.TypeFirst.merge hfirst hinfo)
  · exact ht

/-- A conflict over an argument changes nothing. -/
theorem TypeFirst.mergeArgument_of_conflict {id : Nat} {info : ArgumentInfo}
    (h : (t.mergeArgument id info).2 ≠ none) : (t.mergeArgument id info).1 = t := by
  unfold Tree.mergeArgument at h ⊢
  dsimp only at h ⊢
  split at h
  · rename_i known hknown
    have hfirst := ht (t.primary id)
    rw [hknown] at hfirst
    refine modify_eq_self ?_
    rw [ArgumentInfo.TypeFirst.merge_of_conflict hfirst h, ← hknown]
  · exact absurd rfl h

end Tree

/-- What a directive says of an argument begins with its type. -/
theorem Directive.Reads.typeFirst {directive : Directive} {route : Route}
    (h : directive.Reads route) : ∀ i ∈ route.info, i.TypeFirst := by
  cases h with
  | argument _ _ =>
    rintro i ⟨⟩ hnone
    cases hnone
  | _ => simp

namespace Environment

variable {env : Environment} {site : Element} {text : String}

/-! ## Suggestions come after the type -/

theorem typeFirst_meet (h : env.tree.TypeFirst) {token : Token} {detail : Detail}
    (hdetail : detail.TypeFirst) (existing : Nat) :
    (env.meet site text token detail existing).1.tree.TypeFirst := by
  rcases env.meet_cases site text token detail existing with
    ⟨-, message, heq⟩ | ⟨-, ⟨-, heq⟩ | ⟨info, rfl, ⟨message, heq⟩ | ⟨-, heq⟩⟩⟩
  · rw [heq]
    exact h
  · rw [heq]
    exact h
  · rw [heq]
    exact h.mergeArgument existing hdetail
  · rw [heq]
    exact h.mergeArgument existing hdetail

theorem typeFirst_reach (h : env.tree.TypeFirst) {parent : Nat} {token : Token} {detail : Detail}
    (hdetail : detail.TypeFirst) :
    (env.reach site text parent token detail).1.tree.TypeFirst := by
  unfold reach
  split
  · exact typeFirst_meet h hdetail _
  · exact h.insert hdetail

theorem typeFirst_foldl_addAlias (h : env.tree.TypeFirst) {token : Token} {node : Nat}
    (words : List String) :
    (words.foldl (addAlias site text token node) env).tree.TypeFirst := by
  induction words generalizing env with
  | nil => exact h
  | cons word rest ih =>
    refine ih ?_
    unfold addAlias
    rcases env.tree.addAlias_cases node word with
      ⟨heq, -⟩ | ⟨_, _, -, -, heq⟩ | ⟨p, -, -, heq⟩
    · rw [heq]
      exact h
    · rw [heq]
      exact h
    · rw [heq]
      exact h.pushEntry _ _ _

theorem typeFirst_detailOf {info : Option ArgumentInfo} (hinfo : ∀ i ∈ info, i.TypeFirst)
    (token : Token) (rest : List Token) : (detailOf info token rest).TypeFirst := by
  unfold detailOf
  split
  · exact hinfo _ rfl
  · exact Detail.typeFirst_ofKind _

/-- A walk keeps the order if what is declared at its end does. -/
theorem typeFirst_walk {info : Option ArgumentInfo} (hinfo : ∀ i ∈ info, i.TypeFirst) :
    ∀ (tokens : List Token) (parent : Nat) (env : Environment), env.tree.TypeFirst →
      (walk site text info tokens parent env).1.tree.TypeFirst
  | [], _, _, h => h
  | token :: rest, parent, env, h => by
    have hreach := @typeFirst_reach env site text h parent token _
      (typeFirst_detailOf hinfo token rest)
    rw [walk]
    cases hr : env.reach site text parent token (detailOf info token rest) with
    | mk env₁ result =>
      rw [hr] at hreach
      cases result with
      | none => exact hreach
      | some node =>
        exact typeFirst_walk hinfo rest node _ (typeFirst_foldl_addAlias hreach token.aliases)

theorem typeFirst_place (henv : env.WellFormed) (h : env.tree.TypeFirst) (d : Declaration) :
    (env.place d).tree.TypeFirst := by
  obtain ⟨memo, -, ⟨added, -, heq⟩ | ⟨route, hreads, -, heq⟩⟩ := place_eq henv d
  · rw [heq]
    exact h
  · rw [heq]
    exact typeFirst_walk hreads.typeFirst _ _ _ h

theorem typeFirst_bindElement (h : env.tree.TypeFirst) (names : TypeNames) (d : Declaration) :
    (bindElement names env d).tree.TypeFirst := by
  rcases bindElement_eq names env d with ⟨_, _, heq⟩ | ⟨_, _, _, heq⟩
  · rw [heq]
    exact h
  · rw [heq]
    exact h.modify (h _)

/-- Declaring keeps the order. -/
theorem typeFirst_declare (henv : env.WellFormed) (h : env.tree.TypeFirst) (names : TypeNames)
    (ds : List Declaration) : (env.declare names ds).tree.TypeFirst :=
  declare_induction typeFirst_place (fun h d => typeFirst_bindElement h names d) henv h ds

/-- Suggestions are known only of arguments whose type is known. -/
theorem Reached.typeFirst (henv : Reached env) : env.tree.TypeFirst := by
  induction henv with
  | empty => exact .empty
  | declare henv names ds ih => exact typeFirst_declare henv.orderly.toWellFormed ih names ds
  | bind _ _ role site ih => exact ih.modify (ih _)
  | report _ d ih => exact ih

end Environment

/-! ## Contradictions -/

namespace Tree

/-- The node contradicts the token that has its name. What is declared of an argument is said of the
last token. -/
inductive Contradicts (t : Tree) (info : Option ArgumentInfo) (token : Token) (rest : List Token)
    (node : Nat) : Prop
  | kind (h : (t.node node).identity.kind ≠ token.identity.kind)
  | info {declared known : ArgumentInfo} (hlast : rest = []) (hinfo : info = some declared)
      (hknown : (t.node node).detail = .argument known) (h : known.Differs declared)

/-- One of the tokens contradicts the node that has its name. The tokens before it lead from
`parent` to these nodes, which are there and of their kinds. -/
inductive Stops (t : Tree) (info : Option ArgumentInfo) : Nat → List Token → List Nat → Prop
  | here {parent child : Nat} {token : Token} {rest : List Token}
      (hfind : t.find parent token.identity.name = some child)
      (h : t.Contradicts info token rest (t.primary child)) : Stops t info parent (token :: rest) []
  | further {parent child : Nat} {token : Token} {rest : List Token} {nodes : List Nat}
      (hfind : t.find parent token.identity.name = some child)
      (hkind : (t.node (t.primary child)).identity.kind = token.identity.kind)
      (h : Stops t info (t.primary child) rest nodes) :
      Stops t info parent (token :: rest) (t.primary child :: nodes)

theorem Stops.ne_nil {t : Tree} {info : Option ArgumentInfo} {parent : Nat} {tokens : List Token}
    {nodes : List Nat} (h : t.Stops info parent tokens nodes) : tokens ≠ [] := by
  cases h <;> simp

/-- The nodes before the contradiction are there. -/
theorem Stops.lt {t : Tree} (ht : t.WellFormed) {info : Option ArgumentInfo} {parent : Nat}
    {tokens : List Token} {nodes : List Nat} (h : t.Stops info parent tokens nodes) :
    ∀ n ∈ nodes, n < t.size := by
  induction h with
  | here _ _ => simp
  | further hfind _ _ ih => exact List.forall_mem_cons.mpr ⟨(ht.find_lt hfind).2, ih⟩

/-- An argument takes what is declared of it exactly if it does not contradict it. -/
theorem mergeArgument_eq_none_iff {t : Tree} {node : Nat} (hnode : (t.node node).aliasOf = none)
    {declared : ArgumentInfo} : (t.mergeArgument node declared).2 = none ↔
      ∀ known, (t.node node).detail = .argument known → ¬known.Differs declared := by
  unfold mergeArgument
  rw [primary_of_aliasOf_eq_none hnode]
  dsimp only
  split
  · rename_i known hknown
    rw [ArgumentInfo.merge_eq_none_iff]
    exact ⟨fun h _ heq => Detail.argument.inj (hknown.symm.trans heq) ▸ h, fun h => h known hknown⟩
  · rename_i hno
    exact iff_of_true rfl fun known hknown => absurd hknown (hno known)

end Tree

namespace Environment

variable {env : Environment} {site : Element} {text : String} {info : Option ArgumentInfo}
  {parent child : Nat} {token : Token} {rest : List Token}

/-- A contradiction is reported, and nothing else changes. -/
theorem reach_of_contradicts (htree : env.tree.WellFormed) (hfirst : env.tree.TypeFirst)
    (hfind : env.tree.find parent token.identity.name = some child)
    (h : env.tree.Contradicts info token rest (env.tree.primary child)) :
    ∃ message, env.reach site text parent token (detailOf info token rest) =
      (env.reportConflict site text token message, none) := by
  unfold reach meet
  rw [hfind]
  dsimp only
  by_cases hkind : (env.tree.node (env.tree.primary child)).identity.kind = token.identity.kind
  · cases h with
    | kind hne => exact absurd hkind hne
    | @info declared known hlast hinfo hknown hdiffers =>
      subst hlast hinfo
      have hconflict : (env.tree.mergeArgument (env.tree.primary child) declared).2 ≠ none :=
        fun hnone => (Tree.mergeArgument_eq_none_iff (htree.aliasOf_primary child)).mp hnone known
          hknown hdiffers
      have htree := hfirst.mergeArgument_of_conflict hconflict
      obtain ⟨c, hc⟩ := Option.ne_none_iff_exists'.mp hconflict
      rw [if_pos hkind]
      simp only [detailOf, htree, hc]
      exact ⟨_, rfl⟩
  · rw [if_neg hkind]
    exact ⟨_, rfl⟩

/-- A walk stops at a node only if the node contradicts the token. -/
theorem contradicts_of_reach (htree : env.tree.WellFormed)
    (hfind : env.tree.find parent token.identity.name = some child)
    (h : (env.reach site text parent token (detailOf info token rest)).2 = none) :
    env.tree.Contradicts info token rest (env.tree.primary child) := by
  unfold reach meet at h
  rw [hfind] at h
  dsimp only at h
  split at h
  · split at h
    · rename_i declared hdetail
      split at h
      · rename_i c hc
        have hmerge : (env.tree.mergeArgument (env.tree.primary child) declared).2 ≠ none := by
          simp [hc]
        rw [Ne, Tree.mergeArgument_eq_none_iff (htree.aliasOf_primary child)] at hmerge
        push Not at hmerge
        obtain ⟨known, hknown, hdiffers⟩ := hmerge
        rcases detailOf_eq_argument hdetail with ⟨hlast, hinfo⟩ | ⟨-, rfl⟩
        · exact .info hlast hinfo hknown hdiffers
        · rcases hdiffers with ⟨_, _, -, hnone, -⟩ | ⟨_, _, -, hnone, -⟩ <;> cases hnone
      · cases h
    · cases h
  · rename_i hkind
    exact .kind hkind

/-- Before the last token a walk changes nothing at a node that is there and of the token's kind. -/
theorem reach_of_kind (htree : env.tree.WellFormed)
    (hparent : (env.tree.node parent).aliasOf = none)
    (hrest : rest ≠ []) (hfind : env.tree.find parent token.identity.name = some child)
    (hkind : (env.tree.node (env.tree.primary child)).identity.kind = token.identity.kind) :
    env.reach site text parent token (detailOf info token rest) =
      (env, some (env.tree.primary child)) := by
  obtain ⟨hpos, hlt, -⟩ := htree.parent_lt (htree.parent_of_find hparent hfind)
  exact reach_of_knows (htree.aliasOf_primary child) hfind hkind
    fun i => htree.knows_detailOf hpos hlt hkind fun hnil => absurd hnil hrest

/-- A name that is new beside its siblings leads to a new node. -/
theorem reach_of_find_eq_none (hfind : env.tree.find parent token.identity.name = none)
    (detail : Detail) : env.reach site text parent token detail =
      ({ env with tree := env.tree.insert parent token.identity detail (some site) },
        some env.tree.size) := by
  rw [reach, hfind]

@[simp] theorem tree_enterScope (env : Environment) (site : Element) (node : Nat) :
    (env.enterScope site node).tree = env.tree :=
  rfl

/-- Entering scopes changes nothing but the scopes, and these depend on the tree only. -/
theorem foldl_enterScope (site : Element) (nodes : List Nat) (env : Environment) :
    nodes.foldl (fun env n => env.enterScope site n) env =
      { env with
        scopes := nodes.foldl (fun scopes n => Scope.enter site (env.tree.primary n)
          ((env.tree.node (env.tree.primary n)).parent == some 0) scopes) env.scopes } := by
  induction nodes generalizing env with
  | nil => rfl
  | cons n nodes ih => exact ih (env.enterScope site n)

/-- A walk that stops has only entered the nodes before the contradiction into the scope. -/
theorem walk_of_stops {t : Tree} (ht : t.WellFormed) (hfirst : t.TypeFirst) {tokens : List Token}
    {nodes : List Nat} (h : t.Stops info parent tokens nodes)
    (hparent : (t.node parent).aliasOf = none)
    (hplain : ∀ token ∈ tokens.dropLast, token.aliases = []) {env : Environment}
    (htree : env.tree = t) :
    ∃ token message, walk site text info tokens parent env =
      ((nodes.foldl (fun env n => env.enterScope site n) env).reportConflict site text token
        message,
        none) := by
  induction h generalizing env with
  | @here parent child token rest hfind hcontradicts =>
    subst htree
    obtain ⟨message, hreach⟩ := @reach_of_contradicts env site text info parent child token rest ht
      hfirst hfind hcontradicts
    exact ⟨token, message, by rw [walk, hreach]; rfl⟩
  | @further parent child token rest nodes hfind hkind hstops ih =>
    subst htree
    have hrest := hstops.ne_nil
    rw [List.dropLast_cons_of_ne_nil hrest, List.forall_mem_cons] at hplain
    rw [walk, reach_of_kind ht hparent hrest hfind hkind, List.foldl_cons]
    dsimp only
    rw [hplain.1, List.foldl_nil]
    exact ih (ht.aliasOf_primary child) hplain.2 (tree_enterScope _ _ _)

/-- A new node has no children that could be contradicted. -/
theorem Ready.find_new (h : Ready site info (token :: rest) parent env)
    (hfind : env.tree.find parent token.identity.name = none) (name : String) :
    (env.tree.insert parent token.identity (detailOf info token rest) (some site)).find
      env.tree.size name = none := by
  have hnew := Tree.graftable_command h.lt h.aliasOf hfind h.fits (some site)
  have hsize := (Tree.grafted_insert h.wellFormed.tree hnew).node_size
  rw [Tree.find_eq_none_iff, Tree.primary_of_aliasOf_eq_none (by rw [hsize]), hsize]
  simp

/-- A walk that stops does so at a token that contradicts the tree as it was before. -/
theorem exists_stops_of_walk : ∀ {tokens : List Token} {parent : Nat} {env : Environment},
    Ready site info tokens parent env → (∀ token ∈ tokens.dropLast, token.aliases = []) →
    (walk site text info tokens parent env).2 = none →
    ∃ nodes, env.tree.Stops info parent tokens nodes
  | [], _, _, _, _, hnone => by cases hnone
  | [token], parent, env, h, _, hnone => by
    have hreach : (env.reach site text parent token (detailOf info token [])).2 = none := by
      rw [walk] at hnone
      split at hnone
      · rename_i heq
        rw [heq]
      · cases hnone
    cases hfind : env.tree.find parent token.identity.name with
    | none => simp [reach, hfind] at hreach
    | some child => exact ⟨[], .here hfind (contradicts_of_reach h.wellFormed.tree hfind hreach)⟩
  | token :: next :: rest, parent, env, h, hplain, hnone => by
    rw [List.dropLast_cons_cons, List.forall_mem_cons] at hplain
    rw [walk] at hnone
    cases hfind : env.tree.find parent token.identity.name with
    | some child =>
      by_cases hkind :
          (env.tree.node (env.tree.primary child)).identity.kind = token.identity.kind
      · have hreach := @reach_of_kind env site text info parent child token (next :: rest)
          h.wellFormed.tree h.aliasOf (by simp) hfind hkind
        have hready := (h.next hreach).2.2.2
        rw [settle, hplain.1] at hready
        rw [hreach] at hnone
        dsimp only at hnone
        rw [hplain.1] at hnone
        obtain ⟨nodes, hstops⟩ := exists_stops_of_walk hready hplain.2 hnone
        exact ⟨_, .further hfind hkind hstops⟩
      · exact ⟨[], .here hfind (.kind hkind)⟩
    | none =>
      have hreach := @reach_of_find_eq_none env site text parent token hfind
        (detailOf info token (next :: rest))
      have hready := (h.next hreach).2.2.2
      rw [settle, hplain.1] at hready
      rw [hreach] at hnone
      dsimp only at hnone
      rw [hplain.1] at hnone
      obtain ⟨nodes, hstops⟩ := exists_stops_of_walk hready hplain.2 hnone
      have hno := h.find_new hfind next.identity.name
      cases hstops with
      | here hfind' _ => simp [hno] at hfind'
      | further hfind' _ _ => simp [hno] at hfind'

/-- A walk stops exactly if a token contradicts the tree as it was before. -/
theorem walk_eq_none_iff {tokens : List Token} (h : Ready site info tokens parent env)
    (hfirst : env.tree.TypeFirst) (hplain : ∀ token ∈ tokens.dropLast, token.aliases = []) :
    (walk site text info tokens parent env).2 = none ↔
      ∃ nodes, env.tree.Stops info parent tokens nodes := by
  refine ⟨exists_stops_of_walk h hplain, fun ⟨nodes, hstops⟩ => ?_⟩
  obtain ⟨token, message, hwalk⟩ := @walk_of_stops site text info parent _
    h.wellFormed.tree hfirst _ _ hstops h.aliasOf hplain env rfl
  rw [hwalk]

/-! ## A declaration that is refused -/

/-- The declaration is refused with one error, and the tree and the bindings are as before. Nodes
that were there may have entered the scope of the declaring type, and the namespace of the
declaration is remembered. -/
structure Refused (env env' : Environment) (d : Declaration) (route : Route) (nodes : List Nat) :
    Prop where
  diagnostics : ∃ x, x.IsErrorAt .mergeConflict d.element ∧
    env'.diagnostics = env.diagnostics ++ [x]
  tree : env'.tree = env.tree
  bindings : env'.bindings = env.bindings
  existing : ∀ n ∈ nodes, n < env.tree.size
  scopes : env'.scopes = (nodes.foldl (fun env n => env.enterScope d.element n) env).scopes
  memo : env'.memo = env.memo ∨ ∃ tokens, env'.memo = env.memo.remember route.text tokens

/-- The walk of a structural declaration stops exactly if one of its tokens contradicts the tree.
Then the declaration is refused and leaves the tree intact. -/
theorem Reached.declare_refused (henv : Reached env) (names : TypeNames) {d : Declaration}
    (hstructural : d.directive.isStructural = true) {route : Route}
    (hroute : d.route? = some route) :
    (env.endOf d = none ↔ ∃ nodes, env.tree.Stops route.info 0 route.tokens nodes) ∧
      ∀ {nodes}, env.tree.Stops route.info 0 route.tokens nodes →
        env.Refused (env.declare names [d]) d route nodes := by
  have hwf := henv.orderly.toWellFormed
  have hfst := (fst_readRoute_eq_ok hwf.memo).mpr hroute
  have hreads := readRoute_reads hwf.memo hfst
  have hsteps := steps_readRoute env d.element d.directive
  have hmemo := snd_readRoute_of_ok hwf.memo hfst
  have hready := Ready.start (hsteps.wellFormed hwf) d.element hreads.valid
  rw [declare_of_structural names env hstructural]
  unfold endOf place
  cases hr : readRoute d.element d.directive env.memo with
  | mk result memo =>
    rw [hr] at hfst hmemo hready
    obtain rfl : result = .ok route := hfst
    dsimp only at hmemo ⊢
    refine ⟨walk_eq_none_iff hready henv.typeFirst hreads.aliases_of_mem_dropLast, ?_⟩
    intro nodes hstops
    obtain ⟨token, message, hwalk⟩ := @walk_of_stops d.element route.text route.info 0 _ hwf.tree
      henv.typeFirst _ _ hstops hwf.tree.root_aliasOf hreads.aliases_of_mem_dropLast
      { env with memo } rfl
    rw [hwalk, foldl_enterScope]
    refine ⟨⟨_, ⟨rfl, rfl, rfl⟩, rfl⟩, rfl, rfl, hstops.lt hwf.tree, ?_, ?_⟩
    · rw [foldl_enterScope]
      rfl
    · rcases env.memo.snd_lex route.text with h | ⟨tokens, -, h⟩
      · exact Or.inl (hmemo.trans h)
      · exact Or.inr ⟨tokens, hmemo.trans h⟩

/-- An argument below a literal with an alias. A declaration by another type agrees with the
literal, repeats the argument's type and contradicts its suggestions. -/
theorem teleport_declare_refused :
    let run : Element := { owner := some "Teleport", name := "run", kind := .method }
    let home : Element := { owner := some "Home", name := "run", kind := .method }
    let env := (empty.declare {} [⟨run, .literal ["teleport"] ["tp"]⟩,
      ⟨run, .argument ["tp", "player"] "Player" (some "online")⟩]).bind 3 .execution run
    let d : Declaration := ⟨home, .argument ["tp", "player"] "Player" (some "everyone")⟩
    let route : Route :=
      { text := "tp player"
        tokens := [{ identity := .literal "tp", span := ⟨0, 2⟩ },
          { identity := .argument "player", span := ⟨3, 9⟩ }]
        info := some ⟨some "Player", some "everyone"⟩ }
    d.route? = some route ∧ env.tree.Stops route.info 0 route.tokens [1] ∧
      env.endOf d = none ∧ env.Refused (env.declare {} [d]) d route [1] := by
  intro run home env d route
  have henv : Reached env := .bind (.declare .empty {} _) (by decide +kernel) .execution run
  have hroute : d.route? = some route := by decide +kernel
  have hliteral : env.tree.find 0 "tp" = some 2 := by decide +kernel
  have hprimary : env.tree.primary 2 = 1 := by decide +kernel
  have hkind : (env.tree.node 1).identity.kind = .literal := by decide +kernel
  have hargument : env.tree.find 1 "player" = some 3 := by decide +kernel
  have hprimary' : env.tree.primary 3 = 3 := by decide +kernel
  have hknown : (env.tree.node 3).detail = .argument ⟨some "Player", some "online"⟩ := by
    decide +kernel
  have hhere : env.tree.Stops route.info 1
      [{ identity := .argument "player", span := ⟨3, 9⟩ }] [] :=
    .here hargument (hprimary'.symm ▸ .info rfl rfl hknown (.inr ⟨_, _, rfl, rfl, by decide⟩))
  have hstops := @Tree.Stops.further env.tree route.info 0 2
    { identity := .literal "tp", span := ⟨0, 2⟩ } _ _ hliteral (hprimary.symm ▸ hkind)
    (hprimary.symm ▸ hhere)
  rw [hprimary] at hstops
  have hrefused := henv.declare_refused {} rfl hroute
  exact ⟨hroute, hstops, hrefused.1.mpr ⟨_, hstops⟩, hrefused.2 hstops⟩

end Environment

end CommandTree
