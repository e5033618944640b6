import CommandTree.Proofs.Tree.Nodes

/-!
# What a growing tree keeps

A tree *extends* another (`Tree.Extends`) if it has all nodes of the other and nothing of them is
lost: a node keeps its identity, its parent and its origin, what is known of an argument is never
changed, and children, names and bindings are only added behind those that were there.
-/

namespace CommandTree

namespace ArgumentInfo

/-- What is known of an argument is kept. -/
structure Extends (info info' : ArgumentInfo) : Prop where
  type : ∀ {x}, info.type = some x → info'.type = some x
  suggestions : ∀ {x}, info.suggestions = some x → info'.suggestions = some x

theorem Extends.trans {info info' info'' : ArgumentInfo} (h : info.Extends info')
    (h' : info'.Extends info'') : info.Extends info'' :=
  ⟨fun hx => h'.type (h.type hx), fun hx => h'.suggestions (h.suggestions hx)⟩

/-- A value that is filled in is kept, and agrees with the one that is declared. -/
theorem fill_eq_ok {conflict : String → String → Conflict} {existing incoming value : Option String}
    (h : fill conflict existing incoming = .ok value) :
    (∀ {x}, existing = some x → value = some x) ∧ ∀ {x}, incoming = some x → value = some x := by
  cases existing with
  | none =>
    obtain rfl : incoming = value := by simpa [fill] using h
    simp
  | some old =>
    cases incoming with
    | none =>
      obtain rfl : some old = value := by simpa [fill] using h
      simp
    | some new =>
      by_cases heq : old = new
      · subst heq
        obtain rfl : some old = value := by simpa [fill] using h
        simp
      · simp [fill, heq] at h

/-- Merging loses nothing that is known. -/
theorem extends_merge (info incoming : ArgumentInfo) : info.Extends (info.merge incoming).1 := by
  unfold merge
  split
  · exact ⟨id, id⟩
  · rename_i type htype
    split
    · exact ⟨(fill_eq_ok htype).1, id⟩
    · rename_i suggestions hsuggestions
      exact ⟨(fill_eq_ok htype).1, (fill_eq_ok hsuggestions).1⟩

/-- Without a conflict all that is declared is known afterwards. -/
theorem extends_merge_incoming {info incoming : ArgumentInfo}
    (h : (info.merge incoming).2 = none) : incoming.Extends (info.merge incoming).1 := by
  unfold merge at h ⊢
  split at h
  · cases h
  · rename_i type htype
    split at h
    · cases h
    · rename_i suggestions hsuggestions
      exact ⟨(fill_eq_ok htype).2, (fill_eq_ok hsuggestions).2⟩

end ArgumentInfo

/-- The detail is the same, or one of an argument of which more is known. -/
def Detail.Extends : Detail → Detail → Prop
  | .argument info, .argument info' => info.Extends info'
  | detail, detail' => detail' = detail

theorem Detail.Extends.refl (detail : Detail) : detail.Extends detail := by
  cases detail with
  | argument info => exact ⟨id, id⟩
  | _ => rfl

/-- What extends an argument is an argument of which no less is known. -/
theorem Detail.Extends.exists_argument {info : ArgumentInfo} {detail : Detail}
    (h : (Detail.argument info).Extends detail) :
    ∃ info', detail = .argument info' ∧ info.Extends info' := by
  cases detail with
  | argument info' => exact ⟨info', rfl, h⟩
  | _ => cases h

theorem Detail.Extends.trans {d d' d'' : Detail} (h : d.Extends d') (h' : d'.Extends d'') :
    d.Extends d'' := by
  cases d with
  | argument info =>
    obtain ⟨info', rfl, hinfo⟩ := h.exists_argument
    obtain ⟨info'', rfl, hinfo'⟩ := h'.exists_argument
    exact hinfo.trans hinfo'
  | _ => rwa [h] at h'

/-- The node is the same, but may have more children, names and bindings. -/
structure Node.Extends (n n' : Node) : Prop where
  identity : n'.identity = n.identity
  detail : n.detail.Extends n'.detail
  parent : n'.parent = n.parent
  children : n.children <+: n'.children
  bindings : n.bindings <+: n'.bindings
  aliases : n.aliases <+: n'.aliases
  aliasOf : n'.aliasOf = n.aliasOf
  entries : n.entries <+: n'.entries
  origin : n'.origin = n.origin

theorem Node.Extends.refl (n : Node) : n.Extends n :=
  ⟨rfl, .refl _, rfl, List.prefix_rfl, List.prefix_rfl, List.prefix_rfl, rfl, List.prefix_rfl, rfl⟩

theorem Node.Extends.trans {n n' n'' : Node} (h : n.Extends n') (h' : n'.Extends n'') :
    n.Extends n'' where
  identity := h'.identity.trans h.identity
  detail := h.detail.trans h'.detail
  parent := h'.parent.trans h.parent
  children := h.children.trans h'.children
  bindings := h.bindings.trans h'.bindings
  aliases := h.aliases.trans h'.aliases
  aliasOf := h'.aliasOf.trans h.aliasOf
  entries := h.entries.trans h'.entries
  origin := h'.origin.trans h.origin

namespace Tree

/-- The nodes of `t` are there in `t'`, and nothing of them is lost. -/
structure Extends (t t' : Tree) : Prop where
  size_le : t.size ≤ t'.size
  node : ∀ {id}, id < t.size → (t.node id).Extends (t'.node id)

namespace Extends

theorem refl (t : Tree) : t.Extends t :=
  ⟨Nat.le_refl _, fun _ => .refl _⟩

theorem trans {t t' t'' : Tree} (h : t.Extends t') (h' : t'.Extends t'') : t.Extends t'' where
  size_le := Nat.le_trans h.size_le h'.size_le
  node hid := (h.node hid).trans (h'.node (Nat.lt_of_lt_of_le hid h.size_le))

variable {t t' : Tree} (h : t.Extends t') {id : Nat} (hid : id < t.size)

include h hid

theorem identity : (t'.node id).identity = (t.node id).identity :=
  (h.node hid).identity

theorem parent : (t'.node id).parent = (t.node id).parent :=
  (h.node hid).parent

theorem aliasOf : (t'.node id).aliasOf = (t.node id).aliasOf :=
  (h.node hid).aliasOf

theorem primary : t'.primary id = t.primary id := by
  unfold Tree.primary
  rw [h.aliasOf hid]

end Extends

end Tree

end CommandTree
