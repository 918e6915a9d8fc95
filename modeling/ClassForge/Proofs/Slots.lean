import ClassForge.Slots

/-!
# Slot-addressed sequences

A sequence that is built by adding elements one after the other is known by its first slot and its
elements. Its slots rise, so each of them leads to one element.
-/

namespace ClassForge.Slots

variable {α : Type}

/-! ## Finding elements by slot -/

/-- Slots fall along the list and stay below the next free one. -/
structure Ordered (s : Slots α) : Prop where
  falling : s.newest.Pairwise fun a b => b.1 < a.1
  below : ∀ e ∈ s.newest, e.1 < s.stop

theorem ordered_emptyAt (start : Nat) : (emptyAt start : Slots α).Ordered := ⟨.nil, by simp [emptyAt]⟩

theorem find?_eq_some_iff {es : List (Nat × α)} (h : es.Pairwise fun a b => b.1 < a.1) {i : Nat}
    {a : α} : find? i es = some a ↔ (i, a) ∈ es := by
  induction es with
  | nil => simp [find?]
  | cons e es ih =>
      obtain ⟨hlt, hes⟩ := List.pairwise_cons.1 h
      obtain ⟨o, b⟩ := e
      simp only [find?, List.mem_cons, Prod.mk.injEq]
      split
      next hi => simp [ih hes, Nat.ne_of_lt hi]
      next hi =>
        have hno : ∀ c, (i, c) ∉ es := fun c hc => hi (hlt _ hc)
        by_cases ho : o = i
        · simp [ho, hno, eq_comm]
        · simp [ho, hno, Ne.symm ho]

namespace Ordered

variable {s : Slots α} {i : Nat} {a : α}

theorem get?_eq_some_iff (h : s.Ordered) : s.get? i = some a ↔ (i, a) ∈ s.newest :=
  find?_eq_some_iff h.falling

theorem lt_stop (h : s.Ordered) (hi : s.get? i = some a) : i < s.stop :=
  h.below _ (h.get?_eq_some_iff.1 hi)

end Ordered

/-- The slot of the first of the elements that are equal to `a`. -/
def firstSlot? [DecidableEq α] (s : Slots α) (a : α) : Option Nat :=
  (s.toList.find? fun e => e.2 = a).map Prod.fst

section

variable [DecidableEq α] {s : Slots α} {i : Nat} {a : α}

theorem mem_newest_of_firstSlot? (h : s.firstSlot? a = some i) : (i, a) ∈ s.newest := by
  obtain ⟨⟨o, b⟩, hf, rfl⟩ := Option.map_eq_some_iff.1 h
  obtain rfl : b = a := by simpa using List.find?_some hf
  exact List.mem_reverse.1 (List.mem_of_find?_eq_some hf)

theorem firstSlot?_eq_none_iff : s.firstSlot? a = none ↔ a ∉ s.elements := by
  simp only [firstSlot?, elements, Option.map_eq_none_iff, List.find?_eq_none, List.mem_map,
    decide_eq_true_eq, not_exists, not_and]

theorem exists_firstSlot? (h : a ∈ s.elements) : ∃ i, s.firstSlot? a = some i := by
  rw [← Option.isSome_iff_exists, ← Option.ne_none_iff_isSome, Ne, firstSlot?_eq_none_iff]
  exact not_not_intro h

theorem Ordered.get?_of_firstSlot? (hs : s.Ordered) (h : s.firstSlot? a = some i) :
    s.get? i = some a :=
  hs.get?_eq_some_iff.2 (mem_newest_of_firstSlot? h)

/-- The first slot is the smallest. -/
theorem Ordered.firstSlot?_le (hs : s.Ordered) (h : s.firstSlot? a = some i) {j : Nat}
    (hj : s.get? j = some a) : i ≤ j := by
  obtain ⟨e, hf, rfl⟩ := Option.map_eq_some_iff.1 h
  obtain ⟨-, before, after, hl, hbefore⟩ := List.find?_eq_some_iff_append.1 hf
  have hmem : (j, a) ∈ s.toList := List.mem_reverse.2 (hs.get?_eq_some_iff.1 hj)
  have hrise : s.toList.Pairwise fun a b => a.1 < b.1 := List.pairwise_reverse.2 hs.falling
  rw [hl] at hmem hrise
  rcases List.mem_append.1 hmem with hm | hm
  · exact absurd (hbefore _ hm) (by simp)
  · rcases List.mem_cons.1 hm with rfl | hm
    · exact Nat.le_refl _
    · exact Nat.le_of_lt ((List.pairwise_cons.1 (List.pairwise_append.1 hrise).2.1).1 _ hm)

end

variable [Wide α]

/-! ## Adding elements -/

@[simp]
theorem start_push (s : Slots α) (a : α) : (s.push a).2.start = s.start := rfl

@[simp]
theorem stop_push (s : Slots α) (a : α) : (s.push a).2.stop = s.stop + Wide.width a := rfl

@[simp]
theorem elements_push (s : Slots α) (a : α) : (s.push a).2.elements = s.elements ++ [a] := by
  simp [elements, toList, push]

theorem toList_push (s : Slots α) (a : α) : (s.push a).2.toList = s.toList ++ [(s.stop, a)] := by
  simp [toList, push]

theorem get?_push (s : Slots α) (a : α) (slot : Nat) : (s.push a).2.get? slot =
    if slot < s.stop then s.get? slot else if s.stop = slot then some a else none := rfl

theorem get?_stop_push (s : Slots α) (a : α) : (s.push a).2.get? s.stop = some a := by
  rw [get?_push, if_neg (Nat.lt_irrefl _), if_pos rfl]

@[simp]
theorem extend_nil (s : Slots α) : s.extend [] = s := rfl

@[simp]
theorem extend_cons (s : Slots α) (a : α) (as : List α) :
    s.extend (a :: as) = (s.push a).2.extend as := rfl

theorem start_extend (s : Slots α) (as : List α) : (s.extend as).start = s.start := by
  induction as generalizing s with
  | nil => rfl
  | cons a as ih => exact ih (s.push a).2

/-- The slots that elements take together. -/
def widths : List α → Nat
  | [] => 0
  | a :: as => Wide.width a + widths as

theorem widths_append (as bs : List α) : widths (as ++ bs) = widths as + widths bs := by
  induction as with
  | nil => simp [widths]
  | cons a as ih => rw [List.cons_append, widths, widths, ih, Nat.add_assoc]

theorem stop_extend (s : Slots α) (as : List α) : (s.extend as).stop = s.stop + widths as := by
  induction as generalizing s with
  | nil => rfl
  | cons a as ih => rw [extend_cons, ih, stop_push, widths, Nat.add_assoc]

theorem elements_extend (s : Slots α) (as : List α) :
    (s.extend as).elements = s.elements ++ as := by
  induction as generalizing s with
  | nil => simp
  | cons a as ih => rw [extend_cons, ih, elements_push, List.append_assoc, List.singleton_append]

/-! ## Sequences built by additions -/

/-- Nothing was done to the sequence but adding elements. -/
def Pushed (s : Slots α) : Prop := ∃ as, s = (emptyAt s.start).extend as

theorem pushed_extend (start : Nat) (as : List α) : ((emptyAt start).extend as).Pushed :=
  ⟨as, by rw [start_extend]; rfl⟩

theorem Pushed.eq_extend {s : Slots α} (h : s.Pushed) : s = (emptyAt s.start).extend s.elements := by
  obtain ⟨as, hs⟩ := h
  have he : s.elements = as := by rw [hs, elements_extend]; rfl
  rw [he]
  exact hs

theorem Pushed.extend {s : Slots α} (h : s.Pushed) (as : List α) : (s.extend as).Pushed := by
  refine ⟨s.elements ++ as, ?_⟩
  rw [start_extend]
  calc s.extend as = ((emptyAt s.start).extend s.elements).extend as := by rw [← h.eq_extend]
    _ = (emptyAt s.start).extend (s.elements ++ as) := (List.foldl_append ..).symm

/-- What an addition keeps holds of every sequence built by additions. -/
@[elab_as_elim]
theorem Pushed.induction {motive : (s : Slots α) → s.Pushed → Prop}
    (empty : ∀ start, motive (emptyAt start) (pushed_extend start []))
    (push : ∀ (s : Slots α) (a : α) (h : s.Pushed), motive s h → motive (s.push a).2 (h.extend [a]))
    {s : Slots α} (h : s.Pushed) : motive s h := by
  have hext : ∀ (as : List α) (t : Slots α) (ht : t.Pushed), motive t ht →
      motive (t.extend as) (ht.extend as) := by
    intro as
    induction as with
    | nil => exact fun _ _ hm => hm
    | cons a as ih => exact fun t ht hm => ih (t.push a).2 (ht.extend [a]) (push t a ht hm)
  have hall : ∀ t (ht : t.Pushed), t = (emptyAt s.start).extend s.elements → motive t ht := by
    rintro _ _ rfl
    exact hext s.elements _ _ (empty s.start)
  exact hall s h h.eq_extend

/-! ## Finding what was added -/

section

variable [DecidableEq α] {s : Slots α} {i : Nat} {a : α}

theorem firstSlot?_push (b : α) : (s.push b).2.firstSlot? a =
    (s.firstSlot? a).or (if b = a then some s.stop else none) := by
  simp only [firstSlot?, toList, push, List.reverse_cons, List.find?_append, List.find?_singleton,
    decide_eq_true_eq]
  cases List.find? _ s.newest.reverse with
  | some e => rfl
  | none => split <;> rfl

theorem firstSlot?_extend (h : s.firstSlot? a = some i) (as : List α) :
    (s.extend as).firstSlot? a = some i := by
  induction as generalizing s with
  | nil => exact h
  | cons b as ih => exact ih (by rw [firstSlot?_push, h, Option.some_or])

end

theorem Ordered.push_of_pos {s : Slots α} {a : α} (h : s.Ordered) (ha : 0 < Wide.width a) :
    (s.push a).2.Ordered := by
  refine ⟨List.pairwise_cons.2 ⟨h.below, h.falling⟩, fun e he => ?_⟩
  rw [stop_push]
  rcases List.mem_cons.1 he with rfl | he
  · exact Nat.lt_add_of_pos_right ha
  · exact Nat.lt_add_right _ (h.below e he)

theorem Pushed.ordered_of_pos {s : Slots α} (h : s.Pushed)
    (hpos : ∀ a ∈ s.elements, 0 < Wide.width a) : s.Ordered := by
  induction h using Pushed.induction with
  | empty start => exact ordered_emptyAt start
  | push s a _ ih =>
      simp only [elements_push, List.forall_mem_append, List.forall_mem_singleton] at hpos
      exact (ih hpos.1).push_of_pos hpos.2

/-- Every element takes room. -/
class Spacious (α : Type) [Wide α] : Prop where
  width_pos : ∀ a : α, 0 < Wide.width a

namespace Ordered

variable [Spacious α] {s : Slots α} {i : Nat} {a : α}

theorem push (h : s.Ordered) (a : α) : (s.push a).2.Ordered := h.push_of_pos (Spacious.width_pos a)

theorem get?_extend (h : s.Ordered) (hi : s.get? i = some a) (as : List α) :
    (s.extend as).get? i = some a := by
  induction as generalizing s with
  | nil => exact hi
  | cons b as ih =>
      refine ih (h.push b) ((h.push b).get?_eq_some_iff.2 ?_)
      exact List.mem_cons_of_mem _ (h.get?_eq_some_iff.1 hi)

end Ordered

theorem Pushed.ordered [Spacious α] {s : Slots α} (h : s.Pushed) : s.Ordered :=
  h.ordered_of_pos fun a _ => Spacious.width_pos a

/-! ## Room -/

/-- Every element ends at the next free slot or before it. -/
def Within (s : Slots α) : Prop := ∀ e ∈ s.newest, e.1 + Wide.width e.2 ≤ s.stop

theorem Pushed.within {s : Slots α} (h : s.Pushed) : s.Within := by
  induction h using Pushed.induction with
  | empty start => simp [Within, emptyAt]
  | push s a _ ih =>
      refine List.forall_mem_cons.2 ⟨Nat.le_refl _, fun e he => ?_⟩
      exact Nat.le_trans (ih e he) (Nat.le_add_right _ _)

end ClassForge.Slots
