import Mathlib.Data.List.Perm.Basic
import Mathlib.Data.List.Perm.Subperm
import Mathlib.Data.List.Range
import OpiaiKernel.Esched.Node
import OpiaiKernel.Lib.Placement

/-!
# The custody of the events

An event is in its free queue, in a list, in the slot of a thread, or in the
hands of a call.  A step moves one event from one place to another; each kind of
move is a lemma here, over the queues, lists, slots and hands alone.
-/

namespace OpiaiKernel.Esched

inductive Place
  | free (q : QueId)
  | listed (l : ListId)
  | slot (t : ThreadId)
  | hand

/-- The event is in the place. -/
def InPlace (que : QueId → SchedEventQue) (list : ListId → SchedEventList ℕ)
    (slot : ThreadId → Option ℕ) (hands : List ℕ) : Place → ℕ → Prop
  | .free q, o => o ∈ (que q).ring
  | .listed l, o => o ∈ (list l).head
  | .slot t, o => slot t = some o
  | .hand, o => o ∈ hands

/-- The events of the queue. -/
def ownEvents (cfg : NodeCfg) (q : QueId) : List ℕ :=
  (List.range cfg.eventNum).filter fun o => cfg.que o = q

/-- Every event is in one place, and each queue is its home or does not have
it. -/
structure Custody (cfg : NodeCfg) (que : QueId → SchedEventQue) (list : ListId → SchedEventList ℕ)
    (slot : ThreadId → Option ℕ) (hands : List ℕ) : Prop where
  place : Placement (· < cfg.eventNum) (InPlace que list slot hands)
  home : ∀ q, ∀ o ∈ (que q).ring, cfg.que o = q
  depth : ∀ q, (que q).depth = (ownEvents cfg q).length
  ring_nodup : ∀ q, (que q).ring.Nodup
  head_nodup : ∀ l, (list l).head.Nodup
  curNum : ∀ l, (list l).curNum = (list l).head.length
  hands_nodup : hands.Nodup

namespace Custody

variable {cfg : NodeCfg} {que : QueId → SchedEventQue} {list : ListId → SchedEventList ℕ}
  {slot : ThreadId → Option ℕ} {hands hands' : List ℕ} {o : ℕ} {q : QueId} {l : ListId}
  {t : ThreadId}

theorem perm (h : Custody cfg que list slot hands) (hperm : hands.Perm hands') :
    Custody cfg que list slot hands' := by
  refine ⟨⟨fun p a ha => ?_, fun a ha => ?_⟩, h.home, h.depth, h.ring_nodup, h.head_nodup,
    h.curNum, hperm.nodup_iff.mp h.hands_nodup⟩
  · cases p with
    | hand => exact h.place.inside .hand a (hperm.mem_iff.mpr ha)
    | free q => exact h.place.inside (.free q) a ha
    | listed l => exact h.place.inside (.listed l) a ha
    | slot t => exact h.place.inside (.slot t) a ha
  · obtain ⟨p, hp, honly⟩ := h.place.sole a ha
    have hiff (r : Place) : InPlace que list slot hands' r a ↔ InPlace que list slot hands r a := by
      cases r with
      | hand => exact hperm.mem_iff.symm
      | free q => exact Iff.rfl
      | listed l => exact Iff.rfl
      | slot t => exact Iff.rfl
    exact ⟨p, (hiff p).mpr hp, fun r hr => honly r ((hiff r).mp hr)⟩

theorem lt_of_inPlace (h : Custody cfg que list slot hands) {p : Place}
    (ho : InPlace que list slot hands p o) : o < cfg.eventNum := h.place.inside p o ho

theorem slot_inj (h : Custody cfg que list slot hands) {t' : ThreadId} (ht : slot t = some o)
    (ht' : slot t' = some o) : t = t' := by
  have heq : Place.slot t = Place.slot t' := h.place.unique ht ht'
  cases heq
  rfl

/-! ## Queues -/

/-- An event leaves its queue. -/
theorem deque (h : Custody cfg que list slot hands) {ring : List ℕ}
    (hring : (que q).ring = o :: ring) :
    Custody cfg (Function.update que q { que q with ring }) list slot (o :: hands) := by
  have hnodup := h.ring_nodup q
  rw [hring, List.nodup_cons] at hnodup
  have hfree : InPlace que list slot hands (.free q) o := by
    simp [InPlace, hring]
  have hhand : o ∉ hands := h.place.notMem_of_ne (q := Place.hand) hfree (by simp)
  have hque (q' : QueId) (b : ℕ) (hb : b ∈ (Function.update que q { que q with ring } q').ring) :
      b ∈ (que q').ring := by
    rcases eq_or_ne q' q with rfl | hq
    · rw [Function.update_self] at hb
      rw [hring]
      exact List.mem_cons_of_mem o hb
    · rwa [Function.update_of_ne hq] at hb
  refine ⟨h.place.move (q := Place.hand) hfree (by simpa [InPlace] using hnodup.1) (by simp [InPlace])
    (fun r b hb => ?_), fun q' b hb => h.home q' b (hque q' b hb), fun q' => ?_, fun q' => ?_,
    h.head_nodup, h.curNum, List.nodup_cons.mpr ⟨hhand, h.hands_nodup⟩⟩
  · cases r with
    | free q' =>
        rcases eq_or_ne q' q with rfl | hq
        · have hne : b ≠ o := fun heq => (hb heq).1 rfl
          simp [InPlace, hring, hne]
        · simp [InPlace, Function.update_of_ne hq]
    | listed l => exact Iff.rfl
    | slot t => exact Iff.rfl
    | hand =>
        have hne : b ≠ o := fun heq => (hb heq).2 rfl
        simp [InPlace, hne]
  · rcases eq_or_ne q' q with rfl | hq
    · simpa using h.depth q'
    · simpa [Function.update_of_ne hq] using h.depth q'
  · rcases eq_or_ne q' q with rfl | hq
    · simpa using hnodup.2
    · simpa [Function.update_of_ne hq] using h.ring_nodup q'

/-- The queue of an event that is not in it has room. -/
theorem not_full (h : Custody cfg que list slot hands) {p : Place} (hp : p ≠ .free (cfg.que o))
    (ho : InPlace que list slot hands p o) :
    (que (cfg.que o)).ring.length ≠ (que (cfg.que o)).depth := by
  have hout : ¬ InPlace que list slot hands (.free (cfg.que o)) o :=
    h.place.notMem_of_ne ho hp.symm
  have hmem (b : ℕ) (hb : b ∈ o :: (que (cfg.que o)).ring) : b ∈ ownEvents cfg (cfg.que o) := by
    rw [ownEvents, List.mem_filter, List.mem_range, decide_eq_true_eq]
    rcases List.mem_cons.mp hb with rfl | hb
    · exact ⟨h.lt_of_inPlace ho, rfl⟩
    · exact ⟨h.lt_of_inPlace (p := Place.free (cfg.que o)) hb, h.home _ b hb⟩
  have hlen : (o :: (que (cfg.que o)).ring).length ≤ (ownEvents cfg (cfg.que o)).length :=
    (List.subperm_of_subset (List.nodup_cons.mpr ⟨hout, h.ring_nodup _⟩) hmem).length_le
  rw [List.length_cons, ← h.depth] at hlen
  omega

/-- An event in hand goes back to its queue. -/
theorem enque (h : Custody cfg que list slot (o :: hands)) :
    Custody cfg (Function.update que (cfg.que o) (schedEventEnque (que (cfg.que o)) o)) list slot
      hands := by
  have hhand : InPlace que list slot (o :: hands) .hand o := by simp [InPlace]
  have hfree : o ∉ (que (cfg.que o)).ring :=
    h.place.notMem_of_ne (q := Place.free (cfg.que o)) hhand (by simp)
  have hroom : (schedEventEnque (que (cfg.que o)) o) =
      { que (cfg.que o) with ring := (que (cfg.que o)).ring ++ [o] } :=
    if_neg (h.not_full (by simp) hhand)
  have hnodup := List.nodup_cons.mp h.hands_nodup
  rw [hroom]
  refine ⟨h.place.move (q := Place.free (cfg.que o)) hhand hnodup.1 (by simp [InPlace])
    (fun r b hb => ?_), fun q b hb => ?_, fun q => ?_, fun q => ?_, h.head_nodup, h.curNum,
    hnodup.2⟩
  · cases r with
    | free q =>
        rcases eq_or_ne q (cfg.que o) with rfl | hq
        · have hne : b ≠ o := fun heq => (hb heq).2 rfl
          simp [InPlace, hne]
        · simp [InPlace, Function.update_of_ne hq]
    | listed l => exact Iff.rfl
    | slot t => exact Iff.rfl
    | hand =>
        have hne : b ≠ o := fun heq => (hb heq).1 rfl
        simp [InPlace, hne]
  · rcases eq_or_ne q (cfg.que o) with rfl | hq
    · simp only [Function.update_self, List.mem_append, List.mem_singleton] at hb
      rcases hb with hb | rfl
      · exact h.home _ b hb
      · rfl
    · rw [Function.update_of_ne hq] at hb
      exact h.home q b hb
  · rcases eq_or_ne q (cfg.que o) with rfl | hq
    · simpa using h.depth (cfg.que o)
    · simpa [Function.update_of_ne hq] using h.depth q
  · rcases eq_or_ne q (cfg.que o) with rfl | hq
    · rw [Function.update_self]
      exact (h.ring_nodup _).append (List.nodup_singleton o) (by simpa using hfree)
    · rw [Function.update_of_ne hq]
      exact h.ring_nodup q

/-! ## Lists -/

/-- An event in hand is queued. -/
theorem addTail (h : Custody cfg que list slot (o :: hands)) {eventList : SchedEventList ℕ}
    (hadd : schedEventAddTail (list l) o = some eventList) :
    Custody cfg que (Function.update list l eventList) slot hands := by
  simp only [schedEventAddTail, Option.ite_none_right_eq_some, Option.some.injEq] at hadd
  obtain ⟨-, rfl⟩ := hadd
  have hhand : InPlace que list slot (o :: hands) .hand o := by simp [InPlace]
  have hlisted : o ∉ (list l).head := h.place.notMem_of_ne (q := Place.listed l) hhand (by simp)
  have hnodup := List.nodup_cons.mp h.hands_nodup
  refine ⟨h.place.move (q := Place.listed l) hhand hnodup.1 (by simp [InPlace]) (fun r b hb => ?_),
    h.home, h.depth, h.ring_nodup, fun l' => ?_, fun l' => ?_, hnodup.2⟩
  · cases r with
    | free q => exact Iff.rfl
    | listed l' =>
        rcases eq_or_ne l' l with rfl | hl
        · have hne : b ≠ o := fun heq => (hb heq).2 rfl
          simp [InPlace, hne]
        · simp [InPlace, Function.update_of_ne hl]
    | slot t => exact Iff.rfl
    | hand =>
        have hne : b ≠ o := fun heq => (hb heq).1 rfl
        simp [InPlace, hne]
  · rcases eq_or_ne l' l with rfl | hl
    · rw [Function.update_self]
      exact (h.head_nodup l').append (List.nodup_singleton o) (by simpa using hlisted)
    · rw [Function.update_of_ne hl]
      exact h.head_nodup l'
  · rcases eq_or_ne l' l with rfl | hl
    · simp [h.curNum l']
    · simpa [Function.update_of_ne hl] using h.curNum l'

/-- An event is taken out of its list. -/
theorem take (h : Custody cfg que list slot hands) {eventList : SchedEventList ℕ}
    (hmem : o ∈ (list l).head) (hhead : eventList.head = (list l).head.erase o)
    (hnum : eventList.curNum = (list l).curNum - 1) :
    Custody cfg que (Function.update list l eventList) slot (o :: hands) := by
  have hhand : o ∉ hands := h.place.notMem_of_ne (p := Place.listed l) (q := Place.hand) hmem (by simp)
  have hnodup := h.head_nodup l
  refine ⟨h.place.move (p := Place.listed l) (q := Place.hand) hmem ?_ (by simp [InPlace])
    (fun r b hb => ?_), h.home, h.depth, h.ring_nodup, fun l' => ?_, fun l' => ?_,
    List.nodup_cons.mpr ⟨hhand, h.hands_nodup⟩⟩
  · simp [InPlace, hhead, hnodup.mem_erase_iff]
  · cases r with
    | free q => exact Iff.rfl
    | listed l' =>
        rcases eq_or_ne l' l with rfl | hl
        · have hne : b ≠ o := fun heq => (hb heq).1 rfl
          simp [InPlace, hhead, hnodup.mem_erase_iff, hne]
        · simp [InPlace, Function.update_of_ne hl]
    | slot t => exact Iff.rfl
    | hand =>
        have hne : b ≠ o := fun heq => (hb heq).2 rfl
        simp [InPlace, hne]
  · rcases eq_or_ne l' l with rfl | hl
    · rw [Function.update_self, hhead]
      exact hnodup.erase o
    · rw [Function.update_of_ne hl]
      exact h.head_nodup l'
  · rcases eq_or_ne l' l with rfl | hl
    · rw [Function.update_self, hhead, hnum, h.curNum l', List.length_erase_of_mem hmem]
    · rw [Function.update_of_ne hl]
      exact h.curNum l'

/-! ## Slots -/

/-- An event in hand is put into an empty slot. -/
theorem putSlot (h : Custody cfg que list slot (o :: hands)) (hempty : slot t = none) :
    Custody cfg que list (Function.update slot t (some o)) hands := by
  have hnodup := List.nodup_cons.mp h.hands_nodup
  refine ⟨h.place.move (p := Place.hand) (q := Place.slot t) (by simp [InPlace]) hnodup.1
    (by simp [InPlace]) (fun r b hb => ?_), h.home, h.depth, h.ring_nodup, h.head_nodup, h.curNum,
    hnodup.2⟩
  cases r with
  | free q => exact Iff.rfl
  | listed l => exact Iff.rfl
  | slot t' =>
      rcases eq_or_ne t' t with rfl | ht
      · have hne : o ≠ b := fun heq => (hb heq.symm).2 rfl
        simp [InPlace, hempty, hne]
      · simp [InPlace, Function.update_of_ne ht]
  | hand =>
      have hne : b ≠ o := fun heq => (hb heq).1 rfl
      simp [InPlace, hne]

/-- The event of a slot is taken in hand. -/
theorem takeSlot (h : Custody cfg que list slot hands) (hslot : slot t = some o) :
    Custody cfg que list (Function.update slot t none) (o :: hands) := by
  have hhand : o ∉ hands := h.place.notMem_of_ne (p := Place.slot t) (q := Place.hand) hslot (by simp)
  refine ⟨h.place.move (p := Place.slot t) (q := Place.hand) hslot (by simp [InPlace]) (by simp [InPlace])
    (fun r b hb => ?_), h.home, h.depth, h.ring_nodup, h.head_nodup, h.curNum,
    List.nodup_cons.mpr ⟨hhand, h.hands_nodup⟩⟩
  cases r with
  | free q => exact Iff.rfl
  | listed l => exact Iff.rfl
  | slot t' =>
      rcases eq_or_ne t' t with rfl | ht
      · have hne : o ≠ b := fun heq => (hb heq.symm).1 rfl
        simp [InPlace, hslot, hne]
      · simp [InPlace, Function.update_of_ne ht]
  | hand =>
      have hne : b ≠ o := fun heq => (hb heq).2 rfl
      simp [InPlace, hne]

end Custody

end OpiaiKernel.Esched
