import OpiaiKernel.Lib.AugTree

/-!
# Exact caches of the leaves

A cache can be stale when the caches above a new leaf are not repaired.  Those
of the leaves never are: every operation sets or recomputes the cache of a node
that it leaves without children.
-/

namespace AugTree

variable {α β : Type*} (A : Augment α β)

/-- Every node without children has the cache that its value calls for. -/
def LeafExact : AugTree α β → Prop
  | nil => True
  | node l a g r => (l = nil → r = nil → g = A.compute a A.zero A.zero) ∧ LeafExact l ∧ LeafExact r

/-- The same above a position that holds a node. -/
def PathLeafExact : Path α β → Prop
  | [] => True
  | .left _ _ r :: p => LeafExact A r ∧ PathLeafExact p
  | .right l _ _ :: p => LeafExact A l ∧ PathLeafExact p

variable {A}

theorem leafExact_node {l r : AugTree α β} {a : α} {g : β} (hl : LeafExact A l)
    (hr : LeafExact A r) (hg : g = recompute A l a r) : LeafExact A (node l a g r) := by
  refine ⟨?_, hl, hr⟩
  rintro rfl rfl
  exact hg

/-- A subtree of a tree and the path above it. -/
theorem LeafExact.of_plug {t : AugTree α β} {p : Path α β} (h : LeafExact A (plug t p)) :
    LeafExact A t ∧ PathLeafExact A p := by
  induction p generalizing t with
  | nil => exact ⟨h, trivial⟩
  | cons f p ih =>
      obtain ⟨hf, hp⟩ := ih h
      cases f with
      | left a g r => exact ⟨hf.2.1, hf.2.2, hp⟩
      | right l a g => exact ⟨hf.2.2, hf.2.1, hp⟩

theorem leafExact_plug {l r : AugTree α β} {a : α} {g : β} {p : Path α β}
    (h : LeafExact A (node l a g r)) (hp : PathLeafExact A p) :
    LeafExact A (plug (node l a g r) p) := by
  induction p generalizing l a g r with
  | nil => exact h
  | cons f p ih =>
      cases f with
      | left b k s => exact ih ⟨fun hl => by simp at hl, h, hp.1⟩ hp.2
      | right s b k => exact ih ⟨fun _ hr => by simp at hr, hp.1, h⟩ hp.2

/-- The node where a climb starts may have any cache. -/
theorem leafExact_propagate [DecidableEq β] {l r : AugTree α β} {a : α} {g : β} {p : Path α β}
    (hl : LeafExact A l) (hr : LeafExact A r) (hp : PathLeafExact A p) :
    LeafExact A (propagate A (node l a g r) p) := by
  induction p generalizing l a g r with
  | nil => exact leafExact_node hl hr rfl
  | cons f p ih =>
      rw [propagate]
      split
      · next hg => exact leafExact_plug (leafExact_node hl hr hg) hp
      · have hnode := leafExact_node (a := a) hl hr rfl
        cases f with
        | left b k s => exact ih hnode hp.1 hp.2
        | right s b k => exact ih hp.1 hnode hp.2

theorem leafExact_spliceUp [DecidableEq β] {t : AugTree α β} {p : Path α β}
    (ht : LeafExact A t) (hp : PathLeafExact A p) : LeafExact A (spliceUp A t p) := by
  cases p with
  | nil => exact ht
  | cons f p =>
      cases f with
      | left a g r => exact leafExact_propagate ht hp.1 hp.2
      | right l a g => exact leafExact_propagate hp.1 ht hp.2

theorem leafExact_erase [DecidableEq β] {x : Loc α β} (hx : LeafExact A x.root) :
    LeafExact A (erase A x) := by
  obtain ⟨⟨-, hl, hr⟩, hp⟩ := hx.of_plug
  unfold erase
  split
  · exact leafExact_spliceUp hr hp
  · next hxl _ => exact leafExact_spliceUp (hxl ▸ hl) hp
  · next rl b k rr hxl hxr =>
      have hright : LeafExact A (leftmost [] rl b k rr).root := by
        rw [leftmost_root, plug, ← hxr]
        exact hr
      obtain ⟨⟨-, -, hsr⟩, hsp⟩ := hright.of_plug
      exact leafExact_propagate (hxl ▸ hl) (leafExact_spliceUp hsr hsp) hp

theorem leafExact_rotateAt (pos : List Dir) (d : Dir) {t : AugTree α β} (ht : LeafExact A t) :
    LeafExact A (rotateAt A pos d t) ∧ (rotateAt A pos d t = nil ↔ t = nil) := by
  induction pos generalizing t with
  | nil =>
      cases d with
      | left =>
          rcases t with _ | ⟨l, a, g, _ | ⟨rl, b, k, rr⟩⟩
          · exact ⟨trivial, Iff.rfl⟩
          · exact ⟨ht, Iff.rfl⟩
          · obtain ⟨-, hl, -, hrl, hrr⟩ := ht
            exact ⟨⟨fun h => by simp at h, leafExact_node hl hrl rfl, hrr⟩,
              by simp [rotateAt, rotateLeft]⟩
      | right =>
          rcases t with _ | ⟨_ | ⟨ll, b, k, lr⟩, a, g, r⟩
          · exact ⟨trivial, Iff.rfl⟩
          · exact ⟨ht, Iff.rfl⟩
          · obtain ⟨-, ⟨-, hll, hlr⟩, hr⟩ := ht
            exact ⟨⟨fun _ h => by simp at h, hll, leafExact_node hlr hr rfl⟩,
              by simp [rotateAt, rotateRight]⟩
  | cons e pos ih =>
      cases t with
      | nil => cases e <;> exact ⟨trivial, Iff.rfl⟩
      | node l a g r =>
          obtain ⟨hg, hl, hr⟩ := ht
          cases e with
          | left =>
              obtain ⟨hex, hnil⟩ := ih hl
              exact ⟨⟨fun h => hg (hnil.mp h), hex, hr⟩, by simp [rotateAt]⟩
          | right =>
              obtain ⟨hex, hnil⟩ := ih hr
              exact ⟨⟨fun h h' => hg h (hnil.mp h'), hl, hex⟩, by simp [rotateAt]⟩

theorem leafExact_rebalance (rs : Rotations) {t : AugTree α β} (ht : LeafExact A t) :
    LeafExact A (rebalance A rs t) := by
  induction rs generalizing t with
  | nil => exact ht
  | cons r rs ih => exact ih (leafExact_rotateAt r.1 r.2 ht).1

theorem leafExact_rbInsertAugmented (rs : Rotations) (a : α) {p : Path α β}
    (hp : PathLeafExact A p) :
    LeafExact A (rbInsertAugmented A rs a (A.compute a A.zero A.zero) p) :=
  leafExact_rebalance rs (leafExact_plug ⟨fun _ _ => rfl, trivial, trivial⟩ hp)

theorem leafExact_rbEraseAugmented [DecidableEq β] (rs : Rotations) {x : Loc α β}
    (hx : LeafExact A x.root) : LeafExact A (rbEraseAugmented A rs x) :=
  leafExact_rebalance rs (leafExact_erase hx)

end AugTree
