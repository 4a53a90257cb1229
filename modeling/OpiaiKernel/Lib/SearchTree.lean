import OpiaiKernel.Lib.AugTree

/-!
# Search trees

A descent compares what is looked for with the values it passes.  When the
in-order list of the tree is in the order of the comparison, the descent ends at
the one value that compares equal, or at the link where a new value belongs.
-/

namespace AugTree

variable {α β : Type*} {cmp : α → Ordering}

/-- Descend to the value that compares equal; `cmp a` says on which side of `a`
to go on. -/
def search (cmp : α → Ordering) : AugTree α β → Option α
  | nil => none
  | node l a _ r =>
      match cmp a with
      | .lt => search cmp l
      | .eq => some a
      | .gt => search cmp r

/-- Descend to the link for a new value; `none` when a value compares equal. -/
def link (cmp : α → Ordering) : Path α β → AugTree α β → Option (Path α β)
  | p, nil => some p
  | p, node l a g r =>
      match cmp a with
      | .lt => link cmp (.left a g r :: p) l
      | .eq => none
      | .gt => link cmp (.right l a g :: p) r

/-- No value is on both sides of what is looked for. -/
def Ordered (cmp : α → Ordering) (xs : List α) : Prop :=
  xs.Pairwise fun a b => cmp a = .gt ∨ cmp b = .lt

theorem search_eq_some {t : AugTree α β} {a : α} (h : Ordered cmp t.toList) :
    search cmp t = some a ↔ a ∈ t.toList ∧ cmp a = .eq := by
  induction t with
  | nil => simp [search]
  | node l b g r ihl ihr =>
      obtain ⟨hl, hbr, hcross⟩ := List.pairwise_append.mp h
      obtain ⟨hb, hr⟩ := List.pairwise_cons.mp hbr
      have hleft : a ∈ l.toList → cmp a = .eq → cmp b = .lt := fun ha heq =>
        (hcross a ha b (by simp)).resolve_left (by simp [heq])
      have hright : a ∈ r.toList → cmp a = .eq → cmp b = .gt := fun ha heq =>
        (hb a ha).resolve_right (by simp [heq])
      simp only [search, toList_node, List.mem_append, List.mem_cons]
      cases hcmp : cmp b with
      | lt =>
          rw [ihl hl]
          constructor
          · rintro ⟨ha, heq⟩
            exact ⟨.inl ha, heq⟩
          · rintro ⟨ha | rfl | ha, heq⟩
            · exact ⟨ha, heq⟩
            · simp [hcmp] at heq
            · simp [hcmp] at hright
              exact (hright ha heq).elim
      | eq =>
          rw [Option.some.injEq]
          constructor
          · rintro rfl
            exact ⟨.inr (.inl rfl), hcmp⟩
          · rintro ⟨ha | rfl | ha, heq⟩
            · simp [hleft ha heq] at hcmp
            · rfl
            · simp [hright ha heq] at hcmp
      | gt =>
          rw [ihr hr]
          constructor
          · rintro ⟨ha, heq⟩
            exact ⟨.inr (.inr ha), heq⟩
          · rintro ⟨ha | rfl | ha, heq⟩
            · simp [hleft ha heq] at hcmp
            · simp [hcmp] at heq
            · exact ⟨ha, heq⟩

/-- The descent to a link splits the values. -/
theorem link_split {p : Path α β} {t : AugTree α β} (h : Ordered cmp t.toList)
    (hne : ∀ a ∈ t.toList, cmp a ≠ .eq) :
    ∃ q xs ys, link cmp p t = some q ∧ t.toList = xs ++ ys ∧ before q = before p ++ xs ∧
      after q = ys ++ after p ∧ (∀ a ∈ xs, cmp a = .gt) ∧ ∀ a ∈ ys, cmp a = .lt := by
  induction t generalizing p with
  | nil => exact ⟨p, [], [], rfl, rfl, by simp, by simp, by simp, by simp⟩
  | node l b g r ihl ihr =>
      obtain ⟨hl, hbr, hcross⟩ := List.pairwise_append.mp h
      obtain ⟨hb, hr⟩ := List.pairwise_cons.mp hbr
      simp only [link]
      cases hcmp : cmp b with
      | lt =>
          obtain ⟨q, xs, ys, hq, hlist, hbef, haft, hxs, hys⟩ :=
            ihl (p := .left b g r :: p) hl fun a ha => hne a (by simp [ha])
          refine ⟨q, xs, ys ++ b :: r.toList, hq, by simp [hlist], hbef, ?_, hxs, ?_⟩
          · simp [haft, after]
          · intro a ha
            rcases List.mem_append.mp ha with ha | ha
            · exact hys a ha
            · rcases List.mem_cons.mp ha with rfl | ha
              · exact hcmp
              · exact (hb a ha).resolve_left (by simp [hcmp])
      | eq => exact (hne b (by simp) hcmp).elim
      | gt =>
          obtain ⟨q, xs, ys, hq, hlist, hbef, haft, hxs, hys⟩ :=
            ihr (p := .right l b g :: p) hr fun a ha => hne a (by simp [ha])
          refine ⟨q, l.toList ++ b :: xs, ys, hq, by simp [hlist], ?_, haft, ?_, hys⟩
          · simp [hbef, before]
          · intro a ha
            rcases List.mem_append.mp ha with ha | ha
            · exact (hcross a ha b (by simp)).resolve_right (by simp [hcmp])
            · rcases List.mem_cons.mp ha with rfl | ha
              · exact hcmp
              · exact hxs a ha

/-! ## Writing to the values -/

/-- Write to every value and keep the shape and the caches. -/
def map (f : α → α) : AugTree α β → AugTree α β
  | nil => nil
  | node l a g r => node (map f l) (f a) g (map f r)

@[simp] theorem toList_map (f : α → α) (t : AugTree α β) :
    (map f t).toList = t.toList.map f := by
  induction t with
  | nil => rfl
  | node l a g r ihl ihr => simp [map, ihl, ihr]

/-! ## Walking in order -/

def rbFirst : AugTree α β → Option (Loc α β)
  | nil => none
  | node l a g r => some (leftmost [] l a g r)

theorem root_of_rbFirst {t : AugTree α β} {x : Loc α β} (h : rbFirst t = some x) :
    x.root = t := by
  cases t with
  | nil => simp [rbFirst] at h
  | node l a g r =>
      obtain rfl := Option.some.inj h
      exact leftmost_root [] l a g r

theorem root_of_upNext {p : Path α β} {t : AugTree α β} {x : Loc α β}
    (h : upNext p t = some x) : x.root = plug t p := by
  induction p generalizing t with
  | nil => simp [upNext] at h
  | cons f p ih =>
      cases f with
      | left a g r =>
          obtain rfl := Option.some.inj h
          rfl
      | right l a g => exact ih h

theorem root_of_rbNext {x y : Loc α β} (h : rbNext x = some y) : y.root = x.root := by
  unfold rbNext at h
  split at h
  · exact root_of_upNext h
  · next l a g r hr =>
      obtain rfl := Option.some.inj h
      rw [leftmost_root, ← hr]
      rfl

theorem Loc.mem_toList {x : Loc α β} {t : AugTree α β} (h : x.root = t) : x.a ∈ t.toList := by
  simp [← h, x.toList_root]

end AugTree
