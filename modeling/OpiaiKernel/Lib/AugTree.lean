import Mathlib.Data.List.Basic
import Mathlib.Tactic.TypeStar

/-!
# Augmented binary search trees

Each node of the tree caches a summary of its subtree.  A position in the tree
is a zipper: the frames from the position up to the root.  The updates of the
caches are the ones of an intrusive red-black tree library: `propagate` climbs
and stops at the first unchanged node, `erase` copies the cache of the erased
node to its successor and propagates, and a rebalancing is a sequence of
rotations each of which copies the old cache to the new subtree root and
recomputes the old one.  Colours only decide which rotations happen, so the
rotations are an argument.

Two facts are tracked through every operation: the in-order list of values and
whether every cache is exact.
-/

/-- Binary trees whose nodes hold a value and a cached summary. -/
inductive AugTree (α β : Type*)
  | nil
  | node (l : AugTree α β) (a : α) (aug : β) (r : AugTree α β)
  deriving DecidableEq, Repr

/-- How a cache is computed from a value and the caches of the two children.
The law makes the summary of a subtree independent of its shape. -/
structure Augment (α β : Type*) where
  zero : β
  compute : α → β → β → β
  rotate : ∀ a b x y z, compute a x (compute b y z) = compute b (compute a x y) z

namespace AugTree

variable {α β : Type*}

def toList : AugTree α β → List α
  | nil => []
  | node l a _ r => l.toList ++ a :: r.toList

/-- The cache of a subtree, `z` when it is empty. -/
def aug (z : β) : AugTree α β → β
  | nil => z
  | node _ _ g _ => g

@[simp] theorem toList_nil : (nil : AugTree α β).toList = [] := rfl

@[simp] theorem toList_node (l : AugTree α β) (a : α) (g : β) (r : AugTree α β) :
    (node l a g r).toList = l.toList ++ a :: r.toList := rfl

@[simp] theorem aug_nil (z : β) : (nil : AugTree α β).aug z = z := rfl

@[simp] theorem aug_node (z : β) (l : AugTree α β) (a : α) (g : β) (r : AugTree α β) :
    (node l a g r).aug z = g := rfl

/-! ## Positions -/

/-- One step of a path to the root: the node above and its other subtree. -/
inductive Frame (α β : Type*)
  | left (a : α) (aug : β) (r : AugTree α β)
  | right (l : AugTree α β) (a : α) (aug : β)
  deriving DecidableEq, Repr

/-- The frames above a position, the innermost one first. -/
abbrev Path (α β : Type*) := List (Frame α β)

def Frame.fill (t : AugTree α β) : Frame α β → AugTree α β
  | .left a g r => node t a g r
  | .right l a g => node l a g t

/-- The whole tree with `t` at the position. -/
def plug (t : AugTree α β) : Path α β → AugTree α β
  | [] => t
  | f :: p => plug (f.fill t) p

/-- The values in order before the position. -/
def before : Path α β → List α
  | [] => []
  | .left _ _ _ :: p => before p
  | .right l a _ :: p => before p ++ (l.toList ++ [a])

/-- The values in order after the position. -/
def after : Path α β → List α
  | [] => []
  | .left a _ r :: p => a :: r.toList ++ after p
  | .right _ _ _ :: p => after p

@[simp] theorem toList_plug (t : AugTree α β) (p : Path α β) :
    (plug t p).toList = before p ++ t.toList ++ after p := by
  induction p generalizing t with
  | nil => simp [plug, before, after]
  | cons f p ih => cases f <;> simp [plug, Frame.fill, before, after, ih]

/-- A node of a tree together with the path above it. -/
structure Loc (α β : Type*) where
  path : Path α β
  l : AugTree α β
  a : α
  aug : β
  r : AugTree α β
  deriving DecidableEq, Repr

namespace Loc

def tree (x : Loc α β) : AugTree α β := node x.l x.a x.aug x.r

def root (x : Loc α β) : AugTree α β := plug x.tree x.path

def before (x : Loc α β) : List α := AugTree.before x.path ++ x.l.toList

def after (x : Loc α β) : List α := x.r.toList ++ AugTree.after x.path

theorem toList_root (x : Loc α β) : x.root.toList = x.before ++ x.a :: x.after := by
  simp [root, tree, before, after]

end Loc

/-- The first node in order, below `p`, whose value satisfies `f`. -/
def locate (f : α → Bool) : Path α β → AugTree α β → Option (Loc α β)
  | _, nil => none
  | p, node l a g r =>
      match locate f (.left a g r :: p) l with
      | some x => some x
      | none => if f a then some ⟨p, l, a, g, r⟩ else locate f (.right l a g :: p) r

theorem locate_eq_none {f : α → Bool} {p : Path α β} {t : AugTree α β} :
    locate f p t = none ↔ ∀ a ∈ t.toList, f a = false := by
  induction t generalizing p with
  | nil => simp [locate]
  | node l a g r ihl ihr =>
      cases hl : locate f (.left a g r :: p) l with
      | some x =>
          have hne : locate f (.left a g r :: p) l ≠ none := by simp [hl]
          rw [ne_eq, ihl] at hne
          simp only [locate, hl, toList_node, List.mem_append, List.mem_cons]
          constructor
          · simp
          · intro h
            exact (hne fun b hb => h b (.inl hb)).elim
      | none =>
          have hleft := ihl.mp hl
          by_cases ha : f a = true
          · simp only [locate, hl, ha, if_true, reduceCtorEq, false_iff]
            intro h
            simpa [ha] using h a (by simp)
          · simp only [locate, hl, ha, toList_node, List.mem_append, List.mem_cons]
            rw [if_neg (by simp), ihr]
            constructor
            · rintro h b (hb | rfl | hb)
              · exact hleft b hb
              · simpa using ha
              · exact h b hb
            · exact fun h b hb => h b (.inr (.inr hb))

theorem locate_eq_some {f : α → Bool} {p : Path α β} {t : AugTree α β} {x : Loc α β}
    (h : locate f p t = some x) :
    x.root = plug t p ∧ f x.a = true ∧
      ∃ xs, x.before = before p ++ xs ∧ ∀ b ∈ xs, f b = false := by
  induction t generalizing p with
  | nil => simp [locate] at h
  | node l a g r ihl ihr =>
      cases hl : locate f (.left a g r :: p) l with
      | some y =>
          simp only [locate, hl, Option.some.injEq] at h
          subst h
          exact ihl hl
      | none =>
          have hleft := locate_eq_none.mp hl
          by_cases ha : f a = true
          · simp only [locate, hl, ha, if_true, Option.some.injEq] at h
            subst h
            exact ⟨rfl, ha, l.toList, rfl, hleft⟩
          · simp only [locate, hl, ha] at h
            obtain ⟨hroot, hfa, xs, hxs, hnone⟩ := ihr h
            refine ⟨hroot, hfa, l.toList ++ a :: xs, ?_, ?_⟩
            · simp [hxs, before]
            · intro b hb
              rcases List.mem_append.mp hb with hb | hb
              · exact hleft b hb
              · rcases List.mem_cons.mp hb with rfl | hb
                · simpa using ha
                · exact hnone b hb

/-- Splitting a list at the first value that satisfies `f` is what `locate`
finds. -/
theorem locate_of_split {f : α → Bool} {t : AugTree α β} {xs ys : List α} {a : α}
    (ht : t.toList = xs ++ a :: ys) (hxs : ∀ b ∈ xs, f b = false) (ha : f a = true) :
    ∃ x, locate f [] t = some x ∧ x.root = t ∧ x.a = a ∧ x.before = xs ∧ x.after = ys := by
  cases h : locate f [] t with
  | none =>
      have := locate_eq_none.mp h a (by simp [ht])
      simp [this] at ha
  | some x =>
      obtain ⟨hroot, hfa, zs, hzs, hnone⟩ := locate_eq_some h
      have hlist : x.before ++ x.a :: x.after = xs ++ a :: ys := by
        rw [← x.toList_root, hroot, ← ht]
        rfl
      have hbefore : ∀ b ∈ x.before, f b = false := by
        intro b hb
        rw [hzs] at hb
        exact hnone b (by simpa [before] using hb)
      refine ⟨x, rfl, hroot, ?_⟩
      rcases List.append_eq_append_iff.mp hlist with ⟨ws, hx, hy⟩ | ⟨ws, hx, hy⟩
      · cases ws with
        | nil => simp_all
        | cons w ws =>
            simp only [List.cons_append, List.cons.injEq] at hy
            have := hxs w (by simp [hx])
            rw [← hy.1, hfa] at this
            simp at this
      · cases ws with
        | nil => simp_all
        | cons w ws =>
            simp only [List.cons_append, List.cons.injEq] at hy
            have := hbefore w (by simp [hx])
            rw [← hy.1, ha] at this
            simp at this

/-! ## In-order neighbours -/

/-- The nearest node above whose right subtree holds the position. -/
def upPrev : Path α β → AugTree α β → Option (Loc α β)
  | [], _ => none
  | .left a g r :: p, t => upPrev p (node t a g r)
  | .right l a g :: p, t => some ⟨p, l, a, g, t⟩

/-- The nearest node above whose left subtree holds the position. -/
def upNext : Path α β → AugTree α β → Option (Loc α β)
  | [], _ => none
  | .left a g r :: p, t => some ⟨p, t, a, g, r⟩
  | .right l a g :: p, t => upNext p (node l a g t)

/-- The last node in order of the subtree given by its root's parts. -/
def rightmost : Path α β → AugTree α β → α → β → AugTree α β → Loc α β
  | p, l, a, g, nil => ⟨p, l, a, g, nil⟩
  | p, l, a, g, node rl b h rr => rightmost (.right l a g :: p) rl b h rr

/-- The first node in order of the subtree given by its root's parts. -/
def leftmost : Path α β → AugTree α β → α → β → AugTree α β → Loc α β
  | p, nil, a, g, r => ⟨p, nil, a, g, r⟩
  | p, node ll b h lr, a, g, r => leftmost (.left a g r :: p) ll b h lr

/-- The in-order predecessor. -/
def rbPrev (x : Loc α β) : Option (Loc α β) :=
  match x.l with
  | nil => upPrev x.path x.tree
  | node l a g r => some (rightmost (.left x.a x.aug x.r :: x.path) l a g r)

/-- The in-order successor. -/
def rbNext (x : Loc α β) : Option (Loc α β) :=
  match x.r with
  | nil => upNext x.path x.tree
  | node l a g r => some (leftmost (.right x.l x.a x.aug :: x.path) l a g r)

theorem upPrev_map_a (p : Path α β) (t : AugTree α β) :
    (upPrev p t).map Loc.a = (before p).getLast? := by
  induction p generalizing t with
  | nil => rfl
  | cons f p ih =>
      cases f with
      | left a g r => simp [upPrev, before, ih]
      | right l a g => simp [upPrev, before]

theorem upNext_map_a (p : Path α β) (t : AugTree α β) :
    (upNext p t).map Loc.a = (after p).head? := by
  induction p generalizing t with
  | nil => rfl
  | cons f p ih =>
      cases f with
      | left a g r => simp [upNext, after]
      | right l a g => simp [upNext, after, ih]

theorem leftmost_root (p : Path α β) (l : AugTree α β) (a : α) (g : β) (r : AugTree α β) :
    (leftmost p l a g r).root = plug (node l a g r) p := by
  induction l generalizing p a g r with
  | nil => rfl
  | node ll b h lr ih _ =>
      rw [leftmost, ih]
      rfl

theorem leftmost_l (p : Path α β) (l : AugTree α β) (a : α) (g : β) (r : AugTree α β) :
    (leftmost p l a g r).l = nil := by
  induction l generalizing p a g r with
  | nil => rfl
  | node ll b h lr ih _ => exact ih _ _ _ _

theorem leftmost_before (p : Path α β) (l : AugTree α β) (a : α) (g : β) (r : AugTree α β) :
    before (leftmost p l a g r).path = before p := by
  induction l generalizing p a g r with
  | nil => rfl
  | node ll b h lr ih _ => exact ih _ _ _ _

/-! ## Exact caches -/

variable (A : Augment α β)

/-- The cache that the children of a node call for. -/
def recompute (l : AugTree α β) (a : α) (r : AugTree α β) : β :=
  A.compute a (l.aug A.zero) (r.aug A.zero)

/-- Every cache is the one computed from the children. -/
def Exact : AugTree α β → Prop
  | nil => True
  | node l a g r => g = recompute A l a r ∧ Exact l ∧ Exact r

/-- The caches above a position are right for a subtree with cache `v`. -/
def PathExact : β → Path α β → Prop
  | _, [] => True
  | v, .left a g r :: p => g = A.compute a v (r.aug A.zero) ∧ Exact A r ∧ PathExact g p
  | v, .right l a g :: p => g = A.compute a (l.aug A.zero) v ∧ Exact A l ∧ PathExact g p

instance decidableExact [DecidableEq β] : (t : AugTree α β) → Decidable (Exact A t)
  | nil => isTrue trivial
  | node l a g r =>
      have := decidableExact l
      have := decidableExact r
      inferInstanceAs (Decidable (g = recompute A l a r ∧ Exact A l ∧ Exact A r))

theorem exact_plug {t : AugTree α β} {p : Path α β} :
    Exact A (plug t p) ↔ Exact A t ∧ PathExact A (t.aug A.zero) p := by
  induction p generalizing t with
  | nil => simp [plug, PathExact]
  | cons f p ih =>
      cases f with
      | left a g r =>
          simp only [plug, ih, Frame.fill, Exact, recompute, aug_node, PathExact]
          tauto
      | right l a g =>
          simp only [plug, ih, Frame.fill, Exact, recompute, aug_node, PathExact]
          tauto

/-- Recompute the cache of the node at the position, then climb; stop at the
first node whose cache does not change. -/
def propagate [DecidableEq β] : AugTree α β → Path α β → AugTree α β
  | nil, p => plug nil p
  | node l a _ r, [] => node l a (recompute A l a r) r
  | node l a g r, f :: p =>
      if g = recompute A l a r then plug (node l a g r) (f :: p)
      else propagate (f.fill (node l a (recompute A l a r) r)) p

@[simp] theorem toList_propagate [DecidableEq β] (t : AugTree α β) (p : Path α β) :
    (propagate A t p).toList = before p ++ t.toList ++ after p := by
  induction p generalizing t with
  | nil => cases t <;> simp [propagate, plug, before, after]
  | cons f p ih =>
      cases t with
      | nil => simp [propagate]
      | node l a g r =>
          rw [propagate]
          split
          · simp
          · rw [ih]
            cases f <;> simp [Frame.fill, before, after]

/-- Climbing repairs every cache when only the one of the node at the position
may be wrong and the path above was right for its old value. -/
theorem exact_propagate [DecidableEq β] {l r : AugTree α β} {a : α} {g : β} {p : Path α β}
    (hl : Exact A l) (hr : Exact A r) (hp : PathExact A g p) :
    Exact A (propagate A (node l a g r) p) := by
  induction p generalizing l a g r with
  | nil => exact ⟨rfl, hl, hr⟩
  | cons f p ih =>
      rw [propagate]
      split
      · next hg => exact (exact_plug A).mpr ⟨⟨hg, hl, hr⟩, hp⟩
      · cases f with
        | left b h s => exact ih ⟨rfl, hl, hr⟩ hp.2.1 hp.2.2
        | right s b h => exact ih hp.2.1 ⟨rfl, hl, hr⟩ hp.2.2

/-! ## Erasing a node -/

/-- Put `t` at the position and climb from the node above it. -/
def spliceUp [DecidableEq β] (t : AugTree α β) : Path α β → AugTree α β
  | [] => t
  | f :: p => propagate A (f.fill t) p

@[simp] theorem toList_spliceUp [DecidableEq β] (t : AugTree α β) (p : Path α β) :
    (spliceUp A t p).toList = before p ++ t.toList ++ after p := by
  cases p with
  | nil => simp [spliceUp, before, after]
  | cons f p => cases f <;> simp [spliceUp, Frame.fill, before, after]

theorem exact_spliceUp [DecidableEq β] {t : AugTree α β} {v : β} {p : Path α β}
    (ht : Exact A t) (hp : PathExact A v p) : Exact A (spliceUp A t p) := by
  cases p with
  | nil => exact ht
  | cons f p =>
      cases f with
      | left a g r => exact exact_propagate A ht hp.2.1 hp.2.2
      | right l a g => exact exact_propagate A hp.2.1 ht hp.2.2

/-- Unlink a node.  With two children its successor takes its place and cache,
after the caches below the successor's new position have been repaired. -/
def erase [DecidableEq β] (x : Loc α β) : AugTree α β :=
  match x.l, x.r with
  | nil, r => spliceUp A r x.path
  | l@(node _ _ _ _), nil => spliceUp A l x.path
  | l@(node _ _ _ _), node rl b h rr =>
      let s := leftmost [] rl b h rr
      propagate A (node l s.a x.aug (spliceUp A s.r s.path)) x.path

theorem toList_erase [DecidableEq β] (x : Loc α β) :
    (erase A x).toList = x.before ++ x.after := by
  unfold erase Loc.before Loc.after
  split
  · next hl => simp [hl]
  · next hl hr => simp [hl, hr]
  · next rl b h rr hl hr =>
      have hs := Loc.toList_root (leftmost [] rl b h rr)
      rw [leftmost_root] at hs
      simp only [plug, toList_node, Loc.before, leftmost_l, leftmost_before, Loc.after,
        toList_nil, before, List.append_nil, List.nil_append] at hs
      simp [hl, hr, hs, leftmost_before, before]

theorem exact_erase [DecidableEq β] {x : Loc α β} (hx : Exact A x.root) :
    Exact A (erase A x) := by
  obtain ⟨⟨-, hl, hr⟩, hp⟩ := (exact_plug A).mp hx
  unfold erase
  split
  · exact exact_spliceUp A hr hp
  · next hxl _ => exact exact_spliceUp A (hxl ▸ hl) hp
  · next rl b h rr hxl hxr =>
      have hright : Exact A (leftmost [] rl b h rr).root := by
        rw [leftmost_root, plug, ← hxr]
        exact hr
      obtain ⟨⟨-, -, hsr⟩, hsp⟩ := (exact_plug A).mp hright
      exact exact_propagate A (hxl ▸ hl) (exact_spliceUp A hsr hsp) hp

/-! ## Rotations -/

/-- Which child of a node, and which way a rotation goes. -/
inductive Dir
  | left
  | right
  deriving DecidableEq, Repr

def rotateLeft : AugTree α β → AugTree α β
  | node l a g (node rl b _ rr) => node (node l a (recompute A l a rl) rl) b g rr
  | t => t

def rotateRight : AugTree α β → AugTree α β
  | node (node ll b _ lr) a g r => node ll b g (node lr a (recompute A lr a r) r)
  | t => t

/-- Rotate the subtree below `pos`. -/
def rotateAt : List Dir → Dir → AugTree α β → AugTree α β
  | [], .left, t => rotateLeft A t
  | [], .right, t => rotateRight A t
  | _ :: _, _, nil => nil
  | .left :: pos, d, node l a g r => node (rotateAt pos d l) a g r
  | .right :: pos, d, node l a g r => node l a g (rotateAt pos d r)

/-- The rotations of one rebalancing. -/
abbrev Rotations := List (List Dir × Dir)

def rebalance (rs : Rotations) (t : AugTree α β) : AugTree α β :=
  rs.foldl (fun t r => rotateAt A r.1 r.2 t) t

theorem toList_rotateAt (pos : List Dir) (d : Dir) (t : AugTree α β) :
    (rotateAt A pos d t).toList = t.toList := by
  induction pos generalizing t with
  | nil =>
      cases d with
      | left => rcases t with _ | ⟨l, a, g, _ | ⟨rl, b, h, rr⟩⟩ <;> simp [rotateAt, rotateLeft]
      | right => rcases t with _ | ⟨_ | ⟨ll, b, h, lr⟩, a, g, r⟩ <;> simp [rotateAt, rotateRight]
  | cons e pos ih =>
      cases t with
      | nil => cases e <;> simp [rotateAt]
      | node l a g r => cases e <;> simp [rotateAt, ih]

@[simp] theorem toList_rebalance (rs : Rotations) (t : AugTree α β) :
    (rebalance A rs t).toList = t.toList := by
  induction rs generalizing t with
  | nil => rfl
  | cons r rs ih => exact (ih _).trans (toList_rotateAt A r.1 r.2 t)

theorem exact_rotateLeft {t : AugTree α β} (ht : Exact A t) :
    Exact A (rotateLeft A t) ∧ (rotateLeft A t).aug A.zero = t.aug A.zero := by
  rcases t with _ | ⟨l, a, g, _ | ⟨rl, b, h, rr⟩⟩
  · exact ⟨trivial, rfl⟩
  · exact ⟨ht, rfl⟩
  · obtain ⟨hg, hl, hh, hrl, hrr⟩ := ht
    refine ⟨⟨?_, ⟨rfl, hl, hrl⟩, hrr⟩, rfl⟩
    simp only [recompute, aug_node] at hg hh ⊢
    rw [hg, hh, A.rotate]

theorem exact_rotateRight {t : AugTree α β} (ht : Exact A t) :
    Exact A (rotateRight A t) ∧ (rotateRight A t).aug A.zero = t.aug A.zero := by
  rcases t with _ | ⟨_ | ⟨ll, b, h, lr⟩, a, g, r⟩
  · exact ⟨trivial, rfl⟩
  · exact ⟨ht, rfl⟩
  · obtain ⟨hg, ⟨hh, hll, hlr⟩, hr⟩ := ht
    refine ⟨⟨?_, hll, rfl, hlr, hr⟩, rfl⟩
    simp only [recompute, aug_node] at hg hh ⊢
    rw [hg, hh, A.rotate]

theorem exact_rotateAt (pos : List Dir) (d : Dir) {t : AugTree α β} (ht : Exact A t) :
    Exact A (rotateAt A pos d t) ∧ (rotateAt A pos d t).aug A.zero = t.aug A.zero := by
  induction pos generalizing t with
  | nil =>
      cases d with
      | left => exact exact_rotateLeft A ht
      | right => exact exact_rotateRight A ht
  | cons e pos ih =>
      cases t with
      | nil => cases e <;> exact ⟨trivial, rfl⟩
      | node l a g r =>
          obtain ⟨hg, hl, hr⟩ := ht
          cases e with
          | left =>
              obtain ⟨hex, haug⟩ := ih hl
              exact ⟨⟨by rw [hg, recompute, recompute, haug], hex, hr⟩, rfl⟩
          | right =>
              obtain ⟨hex, haug⟩ := ih hr
              exact ⟨⟨by rw [hg, recompute, recompute, haug], hl, hex⟩, rfl⟩

theorem exact_rebalance (rs : Rotations) {t : AugTree α β} (ht : Exact A t) :
    Exact A (rebalance A rs t) := by
  induction rs generalizing t with
  | nil => exact ht
  | cons r rs ih => exact ih (exact_rotateAt A r.1 r.2 ht).1

/-- Link a new leaf at the position and rebalance.  The caches above the leaf
are left to the caller. -/
def rbInsertAugmented (rs : Rotations) (a : α) (g : β) (p : Path α β) : AugTree α β :=
  rebalance A rs (plug (node nil a g nil) p)

/-- Erase a node and rebalance. -/
def rbEraseAugmented [DecidableEq β] (rs : Rotations) (x : Loc α β) : AugTree α β :=
  rebalance A rs (erase A x)

@[simp] theorem toList_rbInsertAugmented (rs : Rotations) (a : α) (g : β) (p : Path α β) :
    (rbInsertAugmented A rs a g p).toList = before p ++ a :: after p := by
  simp [rbInsertAugmented]

@[simp] theorem toList_rbEraseAugmented [DecidableEq β] (rs : Rotations) (x : Loc α β) :
    (rbEraseAugmented A rs x).toList = x.before ++ x.after := by
  rw [rbEraseAugmented, toList_rebalance, toList_erase]

theorem exact_rbEraseAugmented [DecidableEq β] (rs : Rotations) {x : Loc α β}
    (hx : Exact A x.root) : Exact A (rbEraseAugmented A rs x) :=
  exact_rebalance A rs (exact_erase A hx)

/-- The caches above a new leaf are right exactly when the leaf's cache gives
the same values there as the empty subtree did. -/
theorem exact_rbInsertAugmented (rs : Rotations) {a : α} {p : Path α β}
    (hp : PathExact A (A.compute a A.zero A.zero) p) :
    Exact A (rbInsertAugmented A rs a (A.compute a A.zero A.zero) p) :=
  exact_rebalance A rs ((exact_plug A).mpr ⟨⟨rfl, trivial, trivial⟩, hp⟩)

end AugTree
