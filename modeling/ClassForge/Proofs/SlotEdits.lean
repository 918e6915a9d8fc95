import ClassForge.Proofs.Slots
import ClassForge.Verification.VType
import Mathlib.Data.List.GetD

/-!
# Sequences that are changed in place

Elements are added and taken away at the end, and replaced by others of their width. As long as slots fit
into machine words, every slot is the sum of the widths before it, whatever was done to a sequence.
Slots rise, so a search by halves finds what is there. The main result is `Slots.layout_of_edits`.
-/

namespace ClassForge.Slots

variable {α : Type}

/-! ## Searching by halves -/

/-- Where a search for `slot` ends among the `size` rising slots from place `base` on: at the last one
that is not above it, if there is one. -/
def bisect (slots : List Nat) (slot base size : Nat) : Nat :=
  if 1 < size then
    if slot < slots.getD (base + size / 2) 0 then bisect slots slot base (size - size / 2)
    else bisect slots slot (base + size / 2) (size - size / 2)
  else base
termination_by size

/-- The place of the element that starts at `slot`. -/
def place? (s : Slots α) (slot : Nat) : Option Nat :=
  let slots := s.toList.map Prod.fst
  let k := bisect slots slot 0 slots.length
  if slots[k]? = some slot then some k else none

theorem bisect_eq {slots : List Nat} {slot base size k : Nat} (hs : slots.Pairwise (· < ·))
    (hk : slots[k]? = some slot) (hlow : base ≤ k) (hhigh : k < base + size)
    (hsize : base + size ≤ slots.length) : bisect slots slot base size = k := by
  -- the place that is looked for stays within the part that is left, until that is one place
  obtain ⟨hlt, rfl⟩ := List.getElem?_eq_some_iff.1 hk
  have hrise := List.pairwise_iff_getElem.1 hs
  fun_induction bisect slots slots[k] base size with
  | case1 base size hmore hup ih =>
      rw [List.getD_eq_getElem _ _ (by omega)] at hup
      have hleft : k < base + size / 2 := by
        rcases Nat.lt_trichotomy k (base + size / 2) with h | h | h
        · exact h
        · simp [← h] at hup
        · exact absurd (hrise _ _ (by omega) hlt h) (Nat.lt_asymm hup)
      exact ih hlow (by omega) (by omega)
  | case2 base size hmore hup ih =>
      rw [List.getD_eq_getElem _ _ (by omega)] at hup
      have hright : base + size / 2 ≤ k := Nat.le_of_not_lt fun h => hup (hrise _ _ hlt _ h)
      exact ih hright (by omega) (by omega)
  | case3 base size hone => omega

namespace Ordered

variable {s : Slots α} {slot k : Nat} {a : α}

theorem rising (h : s.Ordered) : (s.toList.map Prod.fst).Pairwise (· < ·) := by
  rw [List.pairwise_map, toList, List.pairwise_reverse]
  exact h.falling

theorem get?_iff_mem (h : s.Ordered) : s.get? slot = some a ↔ (slot, a) ∈ s.toList := by
  rw [h.get?_eq_some_iff, toList, List.mem_reverse]

theorem place?_eq_some_iff (h : s.Ordered) :
    s.place? slot = some k ↔ ∃ a, s.toList[k]? = some (slot, a) := by
  have hfst : (∃ a, s.toList[k]? = some (slot, a)) ↔ (s.toList.map Prod.fst)[k]? = some slot := by
    simp
  rw [hfst]
  refine ⟨fun hk => ?_, fun hk => ?_⟩
  · simp only [place?] at hk
    split at hk
    next hs =>
      cases hk
      exact hs
    next => cases hk
  · have hlt := (List.getElem?_eq_some_iff.1 hk).1
    have hend : bisect (s.toList.map Prod.fst) slot 0 (s.toList.map Prod.fst).length = k :=
      bisect_eq h.rising hk (Nat.zero_le k) (by omega) (by omega)
    simp only [place?, hend, hk, if_true]

theorem get?_eq_bind_place? (h : s.Ordered) (slot : Nat) :
    s.get? slot = (s.place? slot).bind (s.elements[·]?) := by
  ext a
  simp only [h.get?_iff_mem, Option.bind_eq_some_iff, h.place?_eq_some_iff, List.mem_iff_getElem?,
    elements, List.getElem?_map, Option.map_eq_some_iff]
  constructor
  · rintro ⟨k, hk⟩
    exact ⟨k, ⟨a, hk⟩, (slot, a), hk, rfl⟩
  · rintro ⟨k, ⟨b, hb⟩, e, he, rfl⟩
    obtain rfl : (slot, b) = e := Option.some.inj (hb.symm.trans he)
    exact ⟨k, hb⟩

end Ordered

variable [Wide α]

/-! ## Where elements stand -/

/-- Slots are counted from `start` on by the widths of the elements, within the machine words. -/
structure Laid (s : Slots α) (start : Nat) : Prop where
  start_eq : s.start = start
  slot_eq : ∀ k slot a, s.toList[k]? = some (slot, a) → slot = start + widths (s.elements.take k)
  stop_eq : s.stop = start + widths s.elements
  stop_le : s.stop ≤ maxSlot
  totalWidth_eq : s.totalWidth = widths s.elements

namespace Pushed

variable {s s' : Slots α} {slot : Nat} {a old : α} {e : Nat × α}

theorem stop_eq (h : s.Pushed) : s.stop = s.start + widths s.elements := by
  calc s.stop = ((emptyAt s.start).extend s.elements).stop := by rw [← h.eq_extend]
    _ = s.start + widths s.elements := stop_extend ..

theorem totalWidth_eq (h : s.Pushed) : s.totalWidth = widths s.elements := by
  rw [totalWidth, h.stop_eq, Nat.add_sub_cancel_left]

theorem slot_eq (h : s.Pushed) : ∀ k slot a, s.toList[k]? = some (slot, a) →
    slot = s.start + widths (s.elements.take k) := by
  induction h using Pushed.induction with
  | empty start => simp [toList, emptyAt]
  | push s b hs ih =>
      intro k slot a hk
      rw [toList_push] at hk
      have hlen : s.elements.length = s.toList.length := List.length_map ..
      rcases Nat.lt_trichotomy k s.toList.length with hlt | heq | hgt
      · rw [List.getElem?_append_left hlt] at hk
        rw [elements_push, List.take_append_of_le_length (by omega), start_push]
        exact ih k slot a hk
      · subst heq
        simp only [List.getElem?_concat_length, Option.some.injEq, Prod.mk.injEq] at hk
        rw [elements_push, List.take_left' hlen, start_push, ← hs.stop_eq, ← hk.1]
      · rw [List.getElem?_eq_none (by simp; omega)] at hk
        cases hk

end Pushed

/-- No element starts inside another one. -/
theorem Pushed.get?_inside {s : Slots α} {slot o : Nat} {a : α} (h : s.Pushed)
    (ha : (slot, a) ∈ s.newest) (hlow : slot < o) (hhigh : o < slot + Wide.width a) :
    s.get? o = none := by
  induction h using Pushed.induction with
  | empty start => cases ha
  | push s b hs ih =>
      rw [get?_push]
      rcases List.mem_cons.1 ha with heq | ha
      · obtain ⟨rfl, rfl⟩ := Prod.mk.inj heq
        simp [Nat.lt_asymm hlow, Nat.ne_of_lt hlow]
      · have hend := hs.within _ ha
        simp [Nat.lt_of_lt_of_le hhigh hend, ih ha]

/-! ## Changes -/

/-- A change to a sequence. -/
inductive Edit (α : Type) where
  | push (a : α)
  | pop
  | set (slot : Nat) (a : α)
  | extend (as : List α)
  deriving DecidableEq, Repr

/-- The elements that a change adds at the end. -/
def Edit.added : Edit α → List α
  | push a => [a]
  | extend as => as
  | pop | set _ _ => []

/-- The sequence after a change. One that finds nothing to take away or to replace leaves it alone, and
there is no result where a slot would not fit into a machine word. -/
def edit? (s : Slots α) : Edit α → Option (Slots α)
  | .push a => (s.push? a).map Prod.snd
  | .pop => some ((s.pop?.map Prod.snd).getD s)
  | .set slot a => some (((s.set? slot a).map Prod.snd).getD s)
  | .extend as => s.extend? as

theorem push?_eq_some_iff {s : Slots α} {a : α} {r : Nat × Slots α} :
    s.push? a = some r ↔ s.stop + Wide.width a ≤ maxSlot ∧ s.push a = r := by
  simp [push?]

/-- Elements are added as `extend` adds them, if there are slots for all of them. -/
theorem extend?_eq_some_iff {s s' : Slots α} (hs : s.stop ≤ maxSlot) {as : List α} :
    s.extend? as = some s' ↔ s.stop + widths as ≤ maxSlot ∧ s.extend as = s' := by
  induction as generalizing s with
  | nil => simp [extend?, widths, hs]
  | cons a as ih =>
      rw [extend?, List.foldlM_cons, widths, extend_cons, ← Nat.add_assoc]
      by_cases ha : s.stop + Wide.width a ≤ maxSlot
      · rw [push?, if_pos ha]
        exact ih ha
      · rw [push?, if_neg ha]
        simp only [Option.map_none, Option.bind_eq_bind, Option.bind_none]
        simp
        omega

theorem edit?_push (s : Slots α) (a : α) : s.edit? (.push a) = s.extend? [a] := by
  simp [edit?, extend?]

theorem pop?_push (s : Slots α) (a : α) : (s.push a).2.pop? = some ((s.stop, a), s) := rfl

theorem set?_push (s : Slots α) (b : α) (slot : Nat) (a : α) : (s.push b).2.set? slot a =
    if slot < s.stop then (s.set? slot a).map (Prod.map id fun t => (t.push b).2)
    else if s.stop = slot ∧ Wide.width b = Wide.width a then some (b, (s.push a).2) else none := by
  simp only [set?, push, replace?]
  split
  · cases replace? slot a s.newest <;> rfl
  · split
    next h => simp [h.2]
    next => rfl

/-- An element is replaced exactly if one of its width is found. -/
theorem map_fst_replace? (slot : Nat) (a : α) (es : List (Nat × α)) :
    (replace? slot a es).map Prod.fst =
      (find? slot es).filter fun old => Wide.width old = Wide.width a := by
  induction es with
  | nil => rfl
  | cons e es ih =>
      obtain ⟨o, b⟩ := e
      simp only [replace?, find?]
      split
      · rw [← ih, Option.map_map]
        rfl
      · by_cases ho : o = slot <;> by_cases hw : Wide.width b = Wide.width a <;>
          simp [Option.filter, ho, hw]

theorem map_fst_set? (s : Slots α) (slot : Nat) (a : α) : (s.set? slot a).map Prod.fst =
    (s.get? slot).filter fun old => Wide.width old = Wide.width a := by
  rw [get?, ← map_fst_replace?, set?, Option.map_map]
  rfl

theorem width_of_set? {s s' : Slots α} {slot : Nat} {a old : α}
    (h : s.set? slot a = some (old, s')) : Wide.width old = Wide.width a := by
  have hfst := map_fst_set? s slot a
  rw [h, Option.map_some] at hfst
  simpa using (Option.filter_eq_some_iff.1 hfst.symm).2

namespace Pushed

variable {s s' : Slots α} {slot : Nat} {a old : α} {e : Nat × α}

theorem of_pop? (h : s.Pushed) (hp : s.pop? = some (e, s')) : s'.Pushed ∧ s = (s'.push e.2).2 := by
  induction h using Pushed.induction with
  | empty start => cases hp
  | push s a hs =>
      rw [pop?_push] at hp
      cases hp
      exact ⟨hs, rfl⟩

/-- What is replaced is one element; the others stay where they are. -/
theorem of_set? (h : s.Pushed) (hs : s.set? slot a = some (old, s')) :
    s'.Pushed ∧ s'.start = s.start ∧ s'.stop = s.stop ∧
      ∃ k, s.toList[k]? = some (slot, old) ∧ s'.toList = s.toList.set k (slot, a) := by
  induction h using Pushed.induction generalizing s' with
  | empty start => cases hs
  | push s b hp ih =>
      rw [set?_push] at hs
      split at hs
      · -- the slot lies below the newest element, which stays
        obtain ⟨⟨old', t⟩, ht, heq⟩ := Option.map_eq_some_iff.1 hs
        cases heq
        obtain ⟨htp, hstart, hstop, k, hk, hset⟩ := ih ht
        have hlt := (List.getElem?_eq_some_iff.1 hk).1
        refine ⟨htp.extend [b], hstart, by simp [hstop], k, ?_, ?_⟩
        · rw [toList_push, List.getElem?_append_left hlt, hk]
        · rw [toList_push, toList_push, hset, hstop, List.set_append_left _ _ hlt]
      · split at hs
        next hb =>
          cases hs
          refine ⟨hp.extend [a], rfl, by simp [hb.2], s.toList.length, ?_, ?_⟩
          · simp [toList_push, hb.1]
          · simp [toList_push, hb.1]
        next => cases hs

end Pushed

/-- Elements stand one behind the other from `start` on, each of them takes room, and their slots are
machine words. -/
structure Spaced (s : Slots α) (start : Nat) : Prop where
  pushed : s.Pushed
  start_eq : s.start = start
  stop_le : s.stop ≤ maxSlot
  room : ∀ a ∈ s.elements, 0 < Wide.width a

namespace Spaced

variable {s s' : Slots α} {start slot : Nat} {a old : α} {e : Nat × α}

theorem ordered (h : s.Spaced start) : s.Ordered := h.pushed.ordered_of_pos h.room

theorem of_extend? (h : s.Spaced start) {as : List α} (has : ∀ a ∈ as, 0 < Wide.width a)
    (hs : s.extend? as = some s') : s'.Spaced start ∧ s'.stop = s.stop + widths as := by
  obtain ⟨hle, rfl⟩ := (extend?_eq_some_iff h.stop_le).1 hs
  rw [← stop_extend] at hle
  refine ⟨⟨h.pushed.extend as, (start_extend s as).trans h.start_eq, hle, ?_⟩, stop_extend s as⟩
  simpa [elements_extend, or_imp, forall_and] using ⟨h.room, has⟩

theorem of_pop? (h : s.Spaced start) (hp : s.pop? = some (e, s')) :
    s'.Spaced start ∧ s'.stop ≤ s.stop := by
  obtain ⟨hs', rfl⟩ := h.pushed.of_pop? hp
  have hroom := h.room
  simp only [elements_push, List.forall_mem_append] at hroom
  have hstop : s'.stop ≤ (s'.push e.2).2.stop := Nat.le_add_right _ _
  exact ⟨⟨hs', h.start_eq, Nat.le_trans hstop h.stop_le, hroom.1⟩, hstop⟩

theorem of_set? (h : s.Spaced start) (hs : s.set? slot a = some (old, s')) :
    s'.Spaced start ∧ s'.stop = s.stop := by
  obtain ⟨hs', hstart, hstop, k, hk, hset⟩ := h.pushed.of_set? hs
  refine ⟨⟨hs', hstart.trans h.start_eq, hstop ▸ h.stop_le, fun b hb => ?_⟩, hstop⟩
  rw [elements, hset, List.map_set] at hb
  rcases List.mem_or_eq_of_mem_set hb with hb | rfl
  · exact h.room b hb
  · rw [← width_of_set? hs]
    exact h.room old (List.mem_map_of_mem (List.mem_of_getElem? hk))

/-- A change keeps to the layout, and takes no more slots than its elements are wide. -/
theorem of_edit? (h : s.Spaced start) {e : Edit α} (hadd : ∀ a ∈ e.added, 0 < Wide.width a)
    (he : s.edit? e = some s') : s'.Spaced start ∧ s'.stop ≤ s.stop + widths e.added := by
  cases e with
  | push a =>
      rw [edit?_push] at he
      exact (h.of_extend? hadd he).imp_right Nat.le_of_eq
  | extend as => exact (h.of_extend? hadd he).imp_right Nat.le_of_eq
  | pop =>
      cases he
      cases hp : s.pop? with
      | none => exact ⟨h, Nat.le_add_right _ _⟩
      | some r => exact (h.of_pop? hp).imp_right (Nat.le_trans · (Nat.le_add_right _ _))
  | set slot a =>
      cases he
      cases hs : s.set? slot a with
      | none => exact ⟨h, Nat.le_add_right _ _⟩
      | some r =>
          exact (h.of_set? hs).imp_right fun hstop =>
            Nat.le_trans (Nat.le_of_eq hstop) (Nat.le_add_right _ _)

theorem of_edits? (h : s.Spaced start) {edits : List (Edit α)}
    (hadd : ∀ e ∈ edits, ∀ a ∈ e.added, 0 < Wide.width a) (hs : edits.foldlM edit? s = some s') :
    s'.Spaced start := by
  induction edits generalizing s with
  | nil =>
      cases hs
      exact h
  | cons e edits ih =>
      obtain ⟨he, hedits⟩ := List.forall_mem_cons.1 hadd
      rw [List.foldlM_cons] at hs
      obtain ⟨t, ht, hs⟩ := Option.bind_eq_some_iff.1 hs
      exact ih (h.of_edit? he ht).1 hedits hs

/-- A change can be made exactly if there are slots for what it adds. -/
theorem exists_edit?_iff (h : s.Spaced start) (e : Edit α) :
    (∃ s', s.edit? e = some s') ↔ s.stop + widths e.added ≤ maxSlot := by
  cases e with
  | push a => simp [edit?_push, extend?_eq_some_iff h.stop_le, Edit.added]
  | extend as => simp [edit?, extend?_eq_some_iff h.stop_le, Edit.added]
  | pop => exact iff_of_true ⟨_, rfl⟩ h.stop_le
  | set slot a => exact iff_of_true ⟨_, rfl⟩ h.stop_le

/-- Changes can be made one after the other if there are slots for all that they add. -/
theorem exists_edits? (h : s.Spaced start) {edits : List (Edit α)}
    (hadd : ∀ e ∈ edits, ∀ a ∈ e.added, 0 < Wide.width a)
    (hroom : s.stop + widths (edits.flatMap Edit.added) ≤ maxSlot) :
    ∃ s', edits.foldlM edit? s = some s' := by
  induction edits generalizing s with
  | nil => exact ⟨s, rfl⟩
  | cons e edits ih =>
      obtain ⟨he, hedits⟩ := List.forall_mem_cons.1 hadd
      rw [List.flatMap_cons, widths_append] at hroom
      obtain ⟨t, ht⟩ := (h.exists_edit?_iff e).2 (by omega)
      obtain ⟨hts, hstop⟩ := h.of_edit? he ht
      obtain ⟨s', hs'⟩ := ih hts hedits (by omega)
      exact ⟨s', by rw [List.foldlM_cons, ht]; exact hs'⟩

end Spaced

theorem spaced_emptyAt {start : Nat} (h : start ≤ maxSlot) : (emptyAt start : Slots α).Spaced start where
  pushed := pushed_extend start []
  start_eq := rfl
  stop_le := h
  room := by simp [elements, toList, emptyAt]

/-! ## What holds after any changes -/

/-- Looking up a slot gives the element that starts there, and a search by halves leads to its place.
Inside of elements and outside of them there is nothing to be found. -/
structure Searchable (s : Slots α) : Prop where
  rising : (s.toList.map Prod.fst).Pairwise (· < ·)
  get?_iff : ∀ slot a, s.get? slot = some a ↔ (slot, a) ∈ s.toList
  place?_iff : ∀ slot k, s.place? slot = some k ↔ ∃ a, s.toList[k]? = some (slot, a)
  halves : ∀ slot, s.get? slot = (s.place? slot).bind (s.elements[·]?)
  inside : ∀ slot a o, (slot, a) ∈ s.toList → slot < o → o < slot + Wide.width a → s.get? o = none
  before : ∀ o < s.start, s.get? o = none
  behind : ∀ o, s.stop ≤ o → s.get? o = none

/-- What the next change does. -/
structure Changeable (s : Slots α) : Prop where
  room_iff : ∀ e, (∃ s', s.edit? e = some s') ↔ s.start + widths (s.elements ++ e.added) ≤ maxSlot
  /-- The slot that is given for a new element is the one at which it is found. -/
  found : ∀ a slot s', s.push? a = some (slot, s') →
    s'.get? slot = some a ∧ s'.toList = s.toList ++ [(slot, a)]
  restored : ∀ a slot s', s.push? a = some (slot, s') → s'.pop? = some ((slot, a), s)
  replaced : ∀ slot a old, s.get? slot = some old → Wide.width old = Wide.width a →
    ∃ s' k, s.set? slot a = some (old, s') ∧ s'.start = s.start ∧ s'.stop = s.stop ∧
      s.toList[k]? = some (slot, old) ∧ s'.toList = s.toList.set k (slot, a)
  refused : ∀ slot a, (∀ old, s.get? slot = some old → Wide.width old ≠ Wide.width a) →
    s.set? slot a = none ∧ s.edit? (.set slot a) = some s

namespace Spaced

variable {s : Slots α} {start : Nat}

theorem laid (h : s.Spaced start) : s.Laid start where
  start_eq := h.start_eq
  slot_eq := h.start_eq ▸ h.pushed.slot_eq
  stop_eq := h.start_eq ▸ h.pushed.stop_eq
  stop_le := h.stop_le
  totalWidth_eq := h.pushed.totalWidth_eq

theorem searchable (h : s.Spaced start) : s.Searchable where
  rising := h.ordered.rising
  get?_iff _ _ := h.ordered.get?_iff_mem
  place?_iff _ _ := h.ordered.place?_eq_some_iff
  halves := h.ordered.get?_eq_bind_place?
  inside _ _ _ ha := h.pushed.get?_inside (List.mem_reverse.1 ha)
  before o ho := by
    refine Option.eq_none_iff_forall_ne_some.2 fun a ha => ?_
    obtain ⟨k, hk⟩ := List.mem_iff_getElem?.1 (h.ordered.get?_iff_mem.1 ha)
    exact absurd ho (by have := h.pushed.slot_eq k o a hk; omega)
  behind o ho := by
    refine Option.eq_none_iff_forall_ne_some.2 fun a ha => ?_
    exact absurd (h.ordered.lt_stop ha) (Nat.not_lt.2 ho)

theorem changeable (h : s.Spaced start) : s.Changeable where
  room_iff e := by rw [h.exists_edit?_iff, h.pushed.stop_eq, widths_append, Nat.add_assoc]
  found a slot s' hp := by
    obtain ⟨-, ⟨⟩⟩ := push?_eq_some_iff.1 hp
    exact ⟨get?_stop_push s a, toList_push s a⟩
  restored a slot s' hp := by
    obtain ⟨-, ⟨⟩⟩ := push?_eq_some_iff.1 hp
    exact pop?_push s a
  replaced slot a old hold hw := by
    have hfst := map_fst_set? s slot a
    simp only [hold, Option.filter, hw, decide_true, if_true, Option.map_eq_some_iff] at hfst
    obtain ⟨⟨old', s'⟩, hs, rfl⟩ := hfst
    obtain ⟨-, hstart, hstop, k, hk, hset⟩ := h.pushed.of_set? hs
    exact ⟨s', k, hs, hstart, hstop, hk, hset⟩
  refused slot a hno := by
    have hfst := map_fst_set? s slot a
    have hnone : s.set? slot a = none := by
      rw [← Option.map_eq_none_iff, hfst, Option.filter_eq_none_iff]
      simpa using hno
    simp [hnone, edit?]

end Spaced

/-- Constants and types take room. From a first slot that is a machine word, changes with elements that
take room can be made while there are slots. Whatever was done, slots are the sums of the widths before
them, look-ups find what starts at them, and the next change keeps to them. -/
theorem layout_of_edits : (∀ c : Constant, 0 < Wide.width c) ∧ (∀ t : VType, 0 < Wide.width t) ∧
    ∀ (start : Nat) (edits : List (Edit α)), start ≤ maxSlot →
      (∀ e ∈ edits, ∀ a ∈ e.added, 0 < Wide.width a) →
      (start + widths (edits.flatMap Edit.added) ≤ maxSlot →
        ∃ s, edits.foldlM edit? (emptyAt start) = some s) ∧
      ∀ s, edits.foldlM edit? (emptyAt start) = some s →
        s.Laid start ∧ s.Searchable ∧ s.Changeable := by
  refine ⟨Constant.width_pos, VType.width_pos, fun start edits hstart hadd => ⟨?_, fun s hs => ?_⟩⟩
  · exact (spaced_emptyAt hstart).exists_edits? hadd
  · have h := (spaced_emptyAt hstart).of_edits? hadd hs
    exact ⟨h.laid, h.searchable, h.changeable⟩

/-- Wide elements, refused replacements and a slot that is given again. -/
def spree : List (Edit VType) :=
  [.extend [.long, .integer], .push .double, .set 3 .float, .set 2 .top, .set 4 .null, .pop,
    .push .null, .set 1 .double]

theorem layout_of_edits_spree : (∀ e ∈ spree, ∀ a ∈ e.added, 0 < Wide.width a) ∧
    ∃ s, spree.foldlM edit? (emptyAt 1) = some s ∧
      s.toList = [(1, .double), (3, .float), (4, .null)] ∧ s.Laid 1 ∧ s.Searchable ∧ s.Changeable := by
  have hadd : ∀ e ∈ spree, ∀ a ∈ e.added, 0 < Wide.width a := fun _ _ a _ => VType.width_pos a
  have hlayout := layout_of_edits.2.2 1 spree (by decide) hadd
  exact ⟨hadd, _, rfl, rfl, hlayout.2 _ rfl⟩

end ClassForge.Slots
