import CommandTree.Proofs.Assembly.Steps
import CommandTree.Proofs.Factory.Emission

/-!
# How a node is built

In a sound environment a node of a scope can be built exactly if it has a type, should it be an
argument, and if no element of the scope is bound to it as something that only an argument can
have, should it be a literal (`fault?_eq_none`). The node is then begun with its own identity and
gets its own aliases (`identity_plan`, `aliases_plan`). Besides what is declared, it refers to the
first binding by the scope for each role (`references_plan`).
-/

namespace CommandTree

/-- The type that is declared for an argument. -/
def Node.declaredType (n : Node) : Option String :=
  match n.detail with
  | .argument info => info.type
  | _ => none

/-- A type is declared for the node, or an element of the scope is bound to it as its type. -/
def Environment.Typed (env : Environment) (s : Scope) (n : Nat) : Prop :=
  (env.tree.node n).declaredType ≠ none ∨
    ∃ b ∈ env.bindings, b.node = n ∧ b.role = .type ∧ b.site.scope = s.name

/-- A literal has the binding, and only an argument can have it. -/
def Environment.Misplaced (env : Environment) (b : Binding) : Prop :=
  b.role.isForArgument = true ∧ (env.tree.node b.node).identity.kind = .literal

/-- A node other than the root is a literal or an argument, by its kind. -/
theorem Tree.WellFormed.detail_cases {t : Tree} (ht : t.WellFormed) {n : Nat} (hpos : 0 < n)
    (hlt : n < t.size) :
    ((t.node n).detail = .literal ∧ (t.node n).identity.kind = .literal) ∨
      ∃ info, (t.node n).detail = .argument info ∧ (t.node n).identity.kind = .argument := by
  have hfits := ht.detail hpos hlt
  cases hdetail : (t.node n).detail <;> cases hkind : (t.node n).identity.kind <;>
    simp_all [Detail.Fits]

namespace Factory

/-! ## What is written -/

/-- The identity of a node that is begun like this. -/
def Builder.identity : Builder → Identity
  | .literal name => .literal name
  | .argument name _ => .argument name

/-- The other name that a call gives. -/
def Call.word? : Call → Option String
  | .otherName word => some word
  | _ => none

/-- The expression is the value of an element. -/
def Expr.isReference : Expr → Bool
  | .written _ => false
  | .field _ | .method _ => true

@[simp] theorem isReference_ofElement (site : Element) :
    (Expr.ofElement site).isReference = true := by
  unfold Expr.ofElement
  split <;> rfl

/-- The value that a node is begun with, and its role. -/
def Builder.values : Builder → List (Role × Expr)
  | .literal _ => []
  | .argument _ type => [(.type, type)]

/-- The value that a call gives, and its role. -/
def Call.values : Call → List (Role × Expr)
  | .otherName _ => []
  | .suggests value => [(.suggestions, value)]
  | .executes value => [(.execution, value)]
  | .requires value => [(.requirement, value)]

/-- The values of elements that a node is built with, by their roles. -/
def references (builder : Builder) (calls : List Call) : List (Role × Expr) :=
  (builder.values ++ calls.flatMap Call.values).filter (·.2.isReference)

/-! ## Bindings by a scope -/

variable {env : Environment} {s : Scope} {n : Nat}

/-- The bindings that a factory sees on a node are those by elements of its scope. -/
theorem bound_eq_filter (henv : env.WellFormed) (hs : s ∈ env.scopes) (hn : n ∈ s.nodes) :
    bound env s n = env.bindings.filter fun b => b.node == n && b.site.scope == s.name := by
  rw [bound, henv.bindingsOf_eq_filter,
    Tree.primary_of_aliasOf_eq_none ((henv.rooted hs).aliasOf hn), List.filter_filter]
  exact List.filter_congr fun b _ => Bool.and_comm _ _

theorem mem_bound (henv : env.WellFormed) (hs : s ∈ env.scopes) (hn : n ∈ s.nodes) {b : Binding} :
    b ∈ bound env s n ↔ b ∈ env.bindings ∧ b.node = n ∧ b.site.scope = s.name := by
  simp [bound_eq_filter henv hs hn]

theorem boundAs_eq_none {role : Role} :
    boundAs env s n role = none ↔ ∀ b ∈ bound env s n, b.role ≠ role := by
  simp [boundAs]

/-! ## Faults -/

/-- What an argument is built with as its type. -/
def typeOf (env : Environment) (s : Scope) (n : Nat) (info : ArgumentInfo) : Option Expr :=
  (boundAs env s n .type).or (info.type.map .written)

/-- A literal is at fault if something is bound to it that only arguments can have. -/
theorem fault?_literal (hdetail : (env.tree.node n).detail = .literal) :
    fault? env s n = ((bound env s n).find? (·.role.isForArgument)).map fun b =>
      ⟨b.site, .misplacedBinding b.role (env.tree.path n)⟩ := by
  unfold fault? buildNode buildLiteral
  rw [hdetail]
  cases (bound env s n).find? (·.role.isForArgument) <;> rfl

/-- An argument is at fault if it has no type. -/
theorem fault?_argument {info : ArgumentInfo}
    (hdetail : (env.tree.node n).detail = .argument info) :
    fault? env s n = if typeOf env s n info = none then
      some ⟨(env.tree.node n).origin.getD (.ofType s.name), .missingType (env.tree.path n)⟩
    else none := by
  unfold fault? buildNode buildArgument
  rw [hdetail]
  dsimp only
  cases htype : typeOf env s n info with
  | none =>
    unfold typeOf at htype
    rw [htype, if_pos rfl]
  | some type =>
    unfold typeOf at htype
    rw [htype, if_neg (by simp)]

/-- An argument has a type in a scope if the factory finds one. -/
theorem typed_iff (henv : env.WellFormed) (hs : s ∈ env.scopes) (hn : n ∈ s.nodes)
    {info : ArgumentInfo} (hdetail : (env.tree.node n).detail = .argument info) :
    env.Typed s n ↔ typeOf env s n info ≠ none := by
  have hdeclared : (env.tree.node n).declaredType = info.type := by
    simp [Node.declaredType, hdetail]
  have hbound : (∃ b ∈ env.bindings, b.node = n ∧ b.role = .type ∧ b.site.scope = s.name) ↔
      boundAs env s n .type ≠ none := by
    simp only [ne_eq, boundAs_eq_none, mem_bound henv hs hn]
    grind
  rw [Environment.Typed, hdeclared, hbound, typeOf, ne_eq, ne_eq, ne_eq, Option.or_eq_none_iff,
    Option.map_eq_none_iff]
  tauto

/-- A node of a scope can be built exactly if it has a type or is no argument, and has no binding
by the scope that only an argument can have or is no literal. -/
theorem fault?_eq_none (henv : env.WellFormed) (hs : s ∈ env.scopes) (hn : n ∈ s.nodes) :
    fault? env s n = none ↔
      ((env.tree.node n).identity.kind = .argument → env.Typed s n) ∧
      ∀ b ∈ env.bindings, b.node = n → b.site.scope = s.name → ¬env.Misplaced b := by
  obtain ⟨hpos, hlt⟩ := henv.node_lt hs hn
  rcases henv.tree.detail_cases hpos hlt with ⟨hdetail, hkind⟩ | ⟨info, hdetail, hkind⟩
  · rw [fault?_literal hdetail, Option.map_eq_none_iff, List.find?_eq_none, hkind]
    constructor
    · refine fun h => ⟨by simp, fun b hb hnode hscope hmis => ?_⟩
      exact h b ((mem_bound henv hs hn).mpr ⟨hb, hnode, hscope⟩) hmis.1
    · rintro ⟨-, h⟩ b hb hrole
      obtain ⟨hb, hnode, hscope⟩ := (mem_bound henv hs hn).mp hb
      exact h b hb hnode hscope ⟨hrole, by rw [hnode, hkind]⟩
  · rw [fault?_argument hdetail, typed_iff henv hs hn hdetail]
    have hmis : ∀ b ∈ env.bindings, b.node = n → b.site.scope = s.name → ¬env.Misplaced b := by
      rintro b - hnode - ⟨-, hlit⟩
      simp [hnode, hkind] at hlit
    by_cases htype : typeOf env s n info = none
    · simp [htype, hkind]
    · simpa [htype] using hmis

/-- Only a missing type or a misplaced binding is in the way of building a node. -/
theorem cause_of_fault? (henv : env.WellFormed) (hs : s ∈ env.scopes) (hn : n ∈ s.nodes)
    {f : Fault} (h : fault? env s n = some f) :
    (∃ path, f.cause = .missingType path) ∨ ∃ role path, f.cause = .misplacedBinding role path := by
  obtain ⟨hpos, hlt⟩ := henv.node_lt hs hn
  rcases henv.tree.detail_cases hpos hlt with ⟨hdetail, -⟩ | ⟨info, hdetail, -⟩
  · rw [fault?_literal hdetail, Option.map_eq_some_iff] at h
    obtain ⟨b, -, rfl⟩ := h
    exact Or.inr ⟨_, _, rfl⟩
  · rw [fault?_argument hdetail] at h
    split at h
    · cases h
      exact Or.inl ⟨_, rfl⟩
    · cases h

/-! ## Plans -/

/-- A literal is built with its aliases and with what any node may have. -/
theorem plan_literal (hdetail : (env.tree.node n).detail = .literal)
    (h : fault? env s n = none) :
    plan env s n = (.literal (env.tree.node n).identity.name,
      (env.tree.node n).aliases.map .otherName ++ commonCalls env s n) := by
  rw [fault?_literal hdetail, Option.map_eq_none_iff] at h
  unfold plan buildNode buildLiteral
  rw [hdetail, h]

/-- An argument is built with its type, its suggestions and what any node may have. -/
theorem plan_argument {info : ArgumentInfo} {type : Expr}
    (hdetail : (env.tree.node n).detail = .argument info)
    (h : typeOf env s n info = some type) :
    plan env s n = (.argument (env.tree.node n).identity.name type,
      (((boundAs env s n .suggestions).or (info.suggestions.map .written)).map .suggests).toList ++
        commonCalls env s n) := by
  unfold plan buildNode buildArgument
  unfold typeOf at h
  rw [hdetail]
  dsimp only
  rw [h]

theorem exists_typeOf {info : ArgumentInfo}
    (hdetail : (env.tree.node n).detail = .argument info) (h : fault? env s n = none) :
    ∃ type, typeOf env s n info = some type := by
  rw [fault?_argument hdetail] at h
  refine Option.ne_none_iff_exists'.mp fun htype => ?_
  simp [htype] at h

theorem word?_commonCalls : (commonCalls env s n).filterMap Call.word? = [] := by
  unfold commonCalls
  cases boundAs env s n .execution <;> cases boundAs env s n .requirement <;> rfl

/-- A node is begun with its kind and name. -/
theorem identity_plan (henv : env.WellFormed) (hs : s ∈ env.scopes) (hn : n ∈ s.nodes)
    (h : fault? env s n = none) :
    (plan env s n).1.identity = (env.tree.node n).identity := by
  obtain ⟨hpos, hlt⟩ := henv.node_lt hs hn
  rcases henv.tree.detail_cases hpos hlt with ⟨hdetail, hkind⟩ | ⟨info, hdetail, hkind⟩
  · rw [plan_literal hdetail h, Builder.identity, Identity.literal, ← hkind]
  · obtain ⟨type, htype⟩ := exists_typeOf hdetail h
    rw [plan_argument hdetail htype, Builder.identity, Identity.argument, ← hkind]

/-- A node gets its aliases, in their order. -/
theorem aliases_plan (henv : env.WellFormed) (hs : s ∈ env.scopes) (hn : n ∈ s.nodes)
    (h : fault? env s n = none) :
    (plan env s n).2.filterMap Call.word? = (env.tree.node n).aliases := by
  obtain ⟨hpos, hlt⟩ := henv.node_lt hs hn
  rcases henv.tree.detail_cases hpos hlt with ⟨hdetail, -⟩ | ⟨info, hdetail, hkind⟩
  · rw [plan_literal hdetail h, List.filterMap_append, word?_commonCalls, List.append_nil,
      List.filterMap_map]
    exact List.filterMap_some
  · obtain ⟨type, htype⟩ := exists_typeOf hdetail h
    have haliases : (env.tree.node n).aliases = [] := by
      by_contra hne
      simp [henv.tree.aliases hne] at hkind
    rw [plan_argument hdetail htype, haliases, List.filterMap_append, word?_commonCalls,
      List.append_nil, List.filterMap_eq_nil_iff]
    simp [Call.word?]

/-! ## References -/

/-- The roles in the order in which a node refers to their bindings. -/
def roleOrder : List Role :=
  [.type, .suggestions, .execution, .requirement]

/-- The first binding of a role by a scope, if there is one. -/
def firstBound (env : Environment) (s : Scope) (n : Nat) (role : Role) : List Binding :=
  ((bound env s n).find? (·.role == role)).toList

/-- A binding as it is referred to. -/
def referenceTo (b : Binding) : Role × Expr :=
  (b.role, .ofElement b.site)

/-- What is written where a role may be bound refers to the first binding, or to nothing. -/
theorem filter_boundAs (role : Role) (declared : Option String) :
    (((boundAs env s n role).or (declared.map .written)).toList.map (Prod.mk role)).filter
      (·.2.isReference) = (firstBound env s n role).map referenceTo := by
  unfold boundAs firstBound
  cases hfind : (bound env s n).find? (·.role == role) with
  | none => cases declared <;> rfl
  | some b =>
    have hrole : b.role = role := by simpa using List.find?_some hfind
    simp [referenceTo, hrole]

/-- What any node may have refers to the first execution and the first requirement. -/
theorem filter_commonCalls :
    ((commonCalls env s n).flatMap Call.values).filter (·.2.isReference) =
      (firstBound env s n .execution ++ firstBound env s n .requirement).map referenceTo := by
  have hvalues : (commonCalls env s n).flatMap Call.values =
      ((boundAs env s n .execution).or none).toList.map (Prod.mk .execution) ++
        ((boundAs env s n .requirement).or none).toList.map (Prod.mk .requirement) := by
    unfold commonCalls
    cases boundAs env s n .execution <;> cases boundAs env s n .requirement <;> rfl
  rw [hvalues, List.filter_append, List.map_append]
  exact congrArg₂ (· ++ ·) (filter_boundAs .execution none) (filter_boundAs .requirement none)

/-- A node refers to the first binding of each role, and to nothing else. -/
theorem references_plan (henv : env.WellFormed) (hs : s ∈ env.scopes) (hn : n ∈ s.nodes)
    (h : fault? env s n = none) :
    references (plan env s n).1 (plan env s n).2 =
      (roleOrder.flatMap (firstBound env s n)).map referenceTo := by
  have horder : roleOrder.flatMap (firstBound env s n) =
      firstBound env s n .type ++ (firstBound env s n .suggestions ++
        (firstBound env s n .execution ++ firstBound env s n .requirement)) := by
    simp [roleOrder]
  obtain ⟨hpos, hlt⟩ := henv.node_lt hs hn
  rw [horder, List.map_append, List.map_append, ← filter_commonCalls, references,
    List.filter_append]
  rcases henv.tree.detail_cases hpos hlt with ⟨hdetail, -⟩ | ⟨info, hdetail, -⟩
  · have hfree := h
    rw [fault?_literal hdetail, Option.map_eq_none_iff, List.find?_eq_none] at hfree
    have hnone : ∀ role : Role, role.isForArgument = true → firstBound env s n role = [] := by
      intro role hrole
      rw [firstBound, Option.toList_eq_nil_iff, List.find?_eq_none]
      intro b hb heq
      exact hfree b hb (by rwa [eq_of_beq heq])
    rw [hnone .type rfl, hnone .suggestions rfl, plan_literal hdetail h]
    simp [Builder.values, List.flatMap_append, List.flatMap_map, Call.values]
  · obtain ⟨type, htype⟩ := exists_typeOf hdetail h
    rw [plan_argument hdetail htype, List.flatMap_append, List.filter_append,
      ← filter_boundAs .type info.type, ← filter_boundAs .suggestions info.suggestions]
    unfold typeOf at htype
    rw [htype]
    refine congrArg₂ (· ++ ·) rfl (congrArg₂ (· ++ ·) ?_ rfl)
    cases (boundAs env s n .suggestions).or (info.suggestions.map .written) <;> rfl

end Factory

end CommandTree
