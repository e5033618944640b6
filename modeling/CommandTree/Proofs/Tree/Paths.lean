import CommandTree.Proofs.Tree.WellFormed

/-!
# The identities on the way down to a node

In a well-formed tree the identities of a node are those of its parent and its own at the end
(`identities_of_parent`). They tell the node (`identities_inj`), since siblings differ in their
names; even the kind of the last one need not be known (`eq_of_identities_append`). They do not
change while a tree grows.
-/

namespace CommandTree.Tree

@[simp] theorem identities_zero (t : Tree) : t.identities 0 = [] := by
  rw [identities, if_pos rfl]

namespace WellFormed

variable {t : Tree} (ht : t.WellFormed)

include ht

/-- The identities of a node are those of its parent and its own. -/
theorem identities_of_parent {id p : Nat} (h : (t.node id).parent = some p) :
    t.identities id = t.identities p ++ [(t.node id).identity] := by
  obtain ⟨hpos, -, hlt, -⟩ := ht.parent_lt h
  rw [identities, if_neg (Nat.ne_of_gt hpos), h]
  exact dif_pos hlt

theorem identities_ne_nil {id : Nat} (hpos : 0 < id) (hlt : id < t.size) :
    t.identities id ≠ [] := by
  obtain ⟨p, hp, -⟩ := ht.parent hpos hlt
  rw [ht.identities_of_parent hp]
  simp

/-- Siblings of one name are one node. -/
theorem eq_of_parent_eq {a b p : Nat} (ha : (t.node a).parent = some p)
    (hb : (t.node b).parent = some p)
    (hname : (t.node a).identity.name = (t.node b).identity.name) : a = b := by
  have hfound := ht.find_of_parent ha
  rw [hname, ht.find_of_parent hb] at hfound
  exact (Option.some.inj hfound).symm

/-- The identities of a node tell the node. -/
theorem identities_inj {a b : Nat} (ha : a < t.size) (hb : b < t.size)
    (h : t.identities a = t.identities b) : a = b := by
  induction a using Nat.strongRecOn generalizing b with
  | ind a ih =>
    rcases Nat.eq_zero_or_pos a with rfl | hapos
    · rw [identities_zero] at h
      by_contra hne
      exact ht.identities_ne_nil (Nat.pos_of_ne_zero (Ne.symm hne)) hb h.symm
    · rcases Nat.eq_zero_or_pos b with rfl | hbpos
      · exact absurd h (by simpa using ht.identities_ne_nil hapos ha)
      · obtain ⟨p, hp, hpa, -⟩ := ht.parent hapos ha
        obtain ⟨q, hq, hqb, -⟩ := ht.parent hbpos hb
        rw [ht.identities_of_parent hp, ht.identities_of_parent hq] at h
        obtain ⟨hparents, hlast⟩ := List.append_inj' h rfl
        obtain rfl := ih p hpa (by omega) (by omega) hparents
        exact ht.eq_of_parent_eq hp hq (by rw [List.singleton_inj.mp hlast])

/-- The identities of a node tell the node, whatever the kind of the last one. -/
theorem eq_of_identities_append {a b : Nat} (ha : a < t.size) (hb : b < t.size)
    {ids : List Identity} {i j : Identity} (hi : t.identities a = ids ++ [i])
    (hj : t.identities b = ids ++ [j]) (hname : i.name = j.name) : a = b := by
  have hapos : 0 < a := Nat.pos_of_ne_zero fun h => by simp [h] at hi
  have hbpos : 0 < b := Nat.pos_of_ne_zero fun h => by simp [h] at hj
  obtain ⟨p, hp, hpa, -⟩ := ht.parent hapos ha
  obtain ⟨q, hq, hqb, -⟩ := ht.parent hbpos hb
  rw [ht.identities_of_parent hp] at hi
  rw [ht.identities_of_parent hq] at hj
  obtain ⟨hip, hi'⟩ := List.append_inj' hi rfl
  obtain ⟨hjq, hj'⟩ := List.append_inj' hj rfl
  obtain rfl := ht.identities_inj (by omega) (by omega) (hip.trans hjq.symm)
  refine ht.eq_of_parent_eq hp hq ?_
  rw [List.singleton_inj.mp hi', List.singleton_inj.mp hj', hname]

end WellFormed

/-- Growing keeps the identities of the nodes that were there. -/
theorem Extends.identities {t t' : Tree} (h : t.Extends t') (ht : t.WellFormed)
    (ht' : t'.WellFormed) {id : Nat} (hid : id < t.size) : t'.identities id = t.identities id := by
  induction id using Nat.strongRecOn with
  | ind id ih =>
    rcases Nat.eq_zero_or_pos id with rfl | hpos
    · simp
    · obtain ⟨p, hp, hlt, -⟩ := ht.parent hpos hid
      rw [ht.identities_of_parent hp, ht'.identities_of_parent (by rw [h.parent hid, hp]),
        ih p hlt (by omega), h.identity hid]

end CommandTree.Tree
