import CommandTree.Proofs.Assembly.Reached
import CommandTree.Proofs.Namespace.Grammar
import CommandTree.Proofs.Tree.Paths

/-!
# Paths are read back

The path of a node is written from the node up, by its parents, and is resolved from the root down,
by the children. `Tree.follow` resolves a list of identities, and it takes the identities of a node
to the node, or to the one that the node stands for (`WellFormed.follow_identities`).

A path is also a namespace: every identity is shown as a word that stands for it
(`Word.read_display`), since what a node is called is a name. So a path is read as the identities it
was written from (`tokenize_display`), and it tells the node.
-/

namespace CommandTree

open Namespace (IsName tokenize segmentText tokenize_display)

namespace Tree

/-! ## Down from the root -/

/-- Where identities lead from a node: at each step to the child with the identity, and from an
alias entry on to the node it stands for. -/
def follow (t : Tree) : List Identity → Nat → Option Nat
  | [], node => some node
  | identity :: rest, node =>
    match t.child node identity with
    | some child => follow t rest (t.primary child)
    | none => none

theorem follow_append (t : Tree) (ids ids' : List Identity) (node : Nat) :
    t.follow (ids ++ ids') node = (t.follow ids node).bind (t.follow ids') := by
  induction ids generalizing node with
  | nil => rfl
  | cons identity rest ih =>
    rw [List.cons_append, follow, follow]
    split
    · exact ih _
    · rfl

namespace WellFormed

variable {t : Tree} (ht : t.WellFormed)

include ht

/-- The identities of a node lead to it. -/
theorem follow_identities {n : Nat} (hlt : n < t.size) :
    t.follow (t.identities n) 0 = some (t.primary n) := by
  induction n using Nat.strongRecOn with
  | ind n ih =>
    rcases Nat.eq_zero_or_pos n with rfl | hpos
    · rw [identities_zero, follow, primary_of_aliasOf_eq_none ht.root_aliasOf]
    · obtain ⟨p, hp, hpn, hnone⟩ := ht.parent hpos hlt
      have hprimary := primary_of_aliasOf_eq_none hnone
      have hchild : t.child p (t.node n).identity = some n := by
        rw [ht.child_eq_some_iff, hprimary]
        exact ht.listed hp
      rw [ht.identities_of_parent hp, follow_append, ih p hpn (by omega), hprimary,
        Option.bind_some, follow, hchild]
      rfl

/-- The identities of a node have names that can be read. -/
theorem isName_of_mem_identities (hnamed : t.Named) {n : Nat} (hlt : n < t.size) :
    ∀ i ∈ t.identities n, IsName i.name := by
  induction n using Nat.strongRecOn with
  | ind n ih =>
    rcases Nat.eq_zero_or_pos n with rfl | hpos
    · simp
    · obtain ⟨p, hp, hpn, -⟩ := ht.parent hpos hlt
      intro i hi
      rw [ht.identities_of_parent hp, List.mem_append, List.mem_singleton] at hi
      rcases hi with hi | rfl
      · exact ih p hpn (by omega) i hi
      · exact hnamed n hpos hlt

/-- The path of a node is read as its identities. -/
theorem tokenize_path (hnamed : t.Named) {n : Nat} (hpos : 0 < n) (hlt : n < t.size) :
    ∃ tokens, tokenize (t.path n) = .ok tokens ∧ tokens.map (·.identity) = t.identities n :=
  tokenize_display (ht.identities_ne_nil hpos hlt) (ht.isName_of_mem_identities hnamed hlt)

/-- The path of a node tells its identities. The path of the root is not even a namespace. -/
theorem identities_of_path (hnamed : t.Named) {m n : Nat} (hm : m < t.size) (hn : n < t.size)
    (h : t.path m = t.path n) : t.identities m = t.identities n := by
  have hroot : ∀ {tokens}, tokenize (t.path 0) ≠ .ok tokens := by
    intro tokens
    rw [show t.path 0 = "" by simp [path]]
    simp [Namespace.tokenize_eq_collect]
  rcases Nat.eq_zero_or_pos m with rfl | hmpos <;> rcases Nat.eq_zero_or_pos n with rfl | hnpos
  · rfl
  · obtain ⟨tokens, hread, -⟩ := ht.tokenize_path hnamed hnpos hn
    exact absurd (h ▸ hread) hroot
  · obtain ⟨tokens, hread, -⟩ := ht.tokenize_path hnamed hmpos hm
    exact absurd (h ▸ hread) hroot
  · obtain ⟨tokens, hread, hids⟩ := ht.tokenize_path hnamed hmpos hm
    obtain ⟨tokens', hread', hids'⟩ := ht.tokenize_path hnamed hnpos hn
    rw [h] at hread
    obtain rfl := Except.ok.inj (hread.symm.trans hread')
    exact hids.symm.trans hids'

end WellFormed

end Tree

namespace Environment

/-- The path of a node is a namespace that leads to the node, or to the one that it stands for, and
no two nodes have the same path. -/
theorem Reached.path_reads_back {env : Environment} (henv : Reached env) :
    (∀ {n}, 0 < n → n < env.tree.size → ∃ tokens, tokenize (env.tree.path n) = .ok tokens ∧
        env.tree.follow (tokens.map (·.identity)) 0 = some (env.tree.primary n)) ∧
      ∀ {m n}, m < env.tree.size → n < env.tree.size → env.tree.path m = env.tree.path n →
        m = n := by
  have htree := henv.orderly.tree
  have hnamed := henv.orderly.named
  constructor
  · intro n hpos hlt
    obtain ⟨tokens, hread, hids⟩ := htree.tokenize_path hnamed hpos hlt
    exact ⟨tokens, hread, by rw [hids, htree.follow_identities hlt]⟩
  · exact fun hm hn h => htree.identities_inj hm hn (htree.identities_of_path hnamed hm hn h)

/-- The alias entry of a literal, and an argument that was declared through it. -/
theorem shortTeleport_path_reads_back :
    let t := shortTeleport.tree
    t.path 2 = "tp" ∧ t.primary 2 = 1 ∧ t.path 3 = "teleport <player>" ∧
      (∃ tokens, tokenize (t.path 2) = .ok tokens ∧
        t.follow (tokens.map (·.identity)) 0 = some (t.primary 2)) ∧
      (∃ tokens, tokenize (t.path 3) = .ok tokens ∧
        t.follow (tokens.map (·.identity)) 0 = some (t.primary 3)) ∧
      t.path 1 ≠ t.path 2 := by
  intro t
  have hsize : t.size = 4 := by decide +kernel
  have hentry : t.path 2 = "tp" := by decide +kernel
  have hprimary : t.primary 2 = 1 := by decide +kernel
  have hargument : t.path 3 = "teleport <player>" := by decide +kernel
  have hreached : shortTeleport.Reached :=
    .report (.bind (.declare .empty {} _) (by decide +kernel) .execution _) _
  obtain ⟨hread, hinj⟩ := hreached.path_reads_back
  have hlt : ∀ n, n < 4 → n < t.size := fun n h => by omega
  refine ⟨hentry, hprimary, hargument, hread (by decide) (hlt 2 (by decide)),
    hread (by decide) (hlt 3 (by decide)), fun heq => ?_⟩
  exact absurd (hinj (hlt 1 (by decide)) (hlt 2 (by decide)) heq) (by decide)

end Environment

end CommandTree
