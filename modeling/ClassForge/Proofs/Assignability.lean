import ClassForge.Proofs.Frame
import Mathlib.Data.List.Forall2
import Mathlib.Data.List.GetD

/-!
# Assignable frames

A frame goes to another one exactly if each entry of its stack can stand for the entry in its place,
and each slot of its locals for the same slot. Seen so, frames are in a preorder. The main result is
`Frame.assignable_slotwise`.
-/

namespace ClassForge

namespace VType

variable {t e u : VType}

theorem assignable_iff :
    t.assignable e = true ↔ e = .top ∨ (t = .null ∧ ∃ name, e = .object name) ∨ t = e := by
  fun_cases assignable t e with
  | case1 => simp
  | case2 name => simp
  | case3 h₁ h₂ => grind

theorem assignable_refl (t : VType) : t.assignable t = true := assignable_iff.2 (.inr (.inr rfl))

theorem assignable_top (t : VType) : t.assignable .top = true := assignable_iff.2 (.inl rfl)

theorem assignable_trans (h₁ : t.assignable e = true) (h₂ : e.assignable u = true) :
    t.assignable u = true := by
  rw [assignable_iff] at h₁ h₂ ⊢
  rcases h₂ with rfl | ⟨rfl, hu⟩ | rfl
  · exact .inl rfl
  · rcases h₁ with h | ⟨-, _, h⟩ | rfl
    · cases h
    · cases h
    · exact .inr (.inl ⟨rfl, hu⟩)
  · exact h₁

/-- The type slot by slot: what follows the first slot of a wide one cannot be used. -/
def spread (t : VType) : List VType := t :: List.replicate (t.width - 1) .top

theorem length_spread (t : VType) : t.spread.length = t.width := by
  have hw := t.width_pos
  simp only [spread, List.length_cons, List.length_replicate]
  omega

end VType

/-! ## Locals slot by slot -/

namespace Slots

variable {s : Slots VType}

/-- The types of all slots below the next free one. -/
def expand (s : Slots VType) : List VType :=
  List.replicate s.start .top ++ s.elements.flatMap VType.spread

theorem expand_push (s : Slots VType) (t : VType) : (s.push t).2.expand = s.expand ++ t.spread := by
  simp [expand]

theorem Pushed.length_expand (h : s.Pushed) : s.expand.length = s.stop := by
  induction h using Pushed.induction with
  | empty start => simp [expand, emptyAt, elements, toList]
  | push s t hs ih =>
      rw [expand_push, List.length_append, ih, VType.length_spread]
      rfl

/-- Beside the types that are found there is nothing to be used. -/
theorem Pushed.getD_expand (h : s.Pushed) (slot : Nat) :
    s.expand.getD slot .top = (s.get? slot).getD .top := by
  induction h using Pushed.induction with
  | empty start => simp [expand, emptyAt, elements, toList, get?, find?]
  | push s t hs ih =>
      rw [expand_push, get?_push]
      by_cases hlt : slot < s.stop
      · rw [List.getD_append _ _ _ _ (by rwa [hs.length_expand]), ih, if_pos hlt]
      · rw [List.getD_append_right _ _ _ _ (by rw [hs.length_expand]; omega), hs.length_expand,
          if_neg hlt]
        obtain ⟨n, rfl⟩ := Nat.exists_eq_add_of_le (Nat.le_of_not_lt hlt)
        rw [Nat.add_sub_cancel_left]
        cases n with
        | zero => simp [VType.spread]
        | succ n => simp [VType.spread]

end Slots

/-! ## Whole frames -/

namespace Frame

variable {f g h : Frame}

/-- The stack and the locals were built by additions. -/
structure Pushed (f : Frame) : Prop where
  locals : f.locals.Pushed
  stack : f.stack.Pushed

theorem pushed_ofLists (locals stack : List VType) : (ofLists locals stack).Pushed :=
  ⟨Slots.pushed_ofList locals, Slots.pushed_ofList stack⟩

/-- The type of a slot: that of the local that starts there, else one that cannot be used. -/
def expandedLocal (f : Frame) (slot : Nat) : VType := f.locals.expand.getD slot .top

/-- What is in a frame can stand for what another one expects, entry by entry on the stack and slot by
slot in the locals. -/
structure Suits (f g : Frame) : Prop where
  stack : List.Forall₂ (fun t e => VType.assignable t e = true) f.stack.elements g.stack.elements
  locals : ∀ slot, (f.expandedLocal slot).assignable (g.expandedLocal slot) = true

theorem stack_assignable_iff : (f.stack.length = g.stack.length &&
      (f.stack.elements.zip g.stack.elements).all (fun (t, e) => t.assignable e)) = true ↔
    List.Forall₂ (fun t e => VType.assignable t e = true) f.stack.elements g.stack.elements := by
  simp [List.forall₂_iff_zip, Slots.length_elements]

theorem locals_assignable_iff (hf : f.locals.Pushed) (hg : g.locals.Pushed) :
    localsAssignable f.locals.newest g.locals.newest = true ↔
      ∀ slot, (f.expandedLocal slot).assignable (g.expandedLocal slot) = true := by
  rw [localsAssignable_iff hg.ordered.falling]
  simp only [expandedLocal, hf.getD_expand, hg.getD_expand]
  refine ⟨fun h slot => ?_, fun h e he => ?_⟩
  · cases hs : g.locals.get? slot with
    | none => exact VType.assignable_top _
    | some e => exact h (slot, e) (hg.ordered.get?_eq_some_iff.1 hs)
  · have hs : g.locals.get? e.1 = some e.2 := hg.ordered.get?_eq_some_iff.2 he
    have hslot := h e.1
    rw [hs] at hslot
    exact hslot

theorem Pushed.assignable_iff (hf : f.Pushed) (hg : g.Pushed) :
    f.assignable g = true ↔ f.Suits g := by
  rw [assignable, Bool.and_eq_true, stack_assignable_iff, locals_assignable_iff hf.locals hg.locals]
  exact ⟨fun h => ⟨h.1, h.2⟩, fun h => ⟨h.stack, h.locals⟩⟩

theorem Suits.refl (f : Frame) : f.Suits f where
  stack := List.forall₂_same.2 fun t _ => t.assignable_refl
  locals _ := VType.assignable_refl _

theorem Suits.trans (hfg : f.Suits g) (hgh : g.Suits h) : f.Suits h where
  stack := by
    obtain ⟨hlen, hget⟩ := List.forall₂_iff_get.1 hfg.stack
    obtain ⟨hlen', hget'⟩ := List.forall₂_iff_get.1 hgh.stack
    exact List.forall₂_iff_get.2 ⟨hlen.trans hlen', fun i hi hi' =>
      VType.assignable_trans (hget i hi (hlen ▸ hi)) (hget' i (hlen ▸ hi) hi')⟩
  locals slot := VType.assignable_trans (hfg.locals slot) (hgh.locals slot)

/-- Frames built by additions go to each other as their entries and slots do. So each goes to itself,
and what goes to a frame goes on to where that one goes. -/
theorem assignable_slotwise :
    (∀ f : Frame, f.Pushed → ∀ slot, f.expandedLocal slot = (f.locals.get? slot).getD .top) ∧
    (∀ f g : Frame, f.Pushed → g.Pushed → (f.assignable g = true ↔ f.Suits g)) ∧
    (∀ f : Frame, f.Pushed → f.assignable f = true) ∧
    ∀ f g h : Frame, f.Pushed → g.Pushed → h.Pushed → f.assignable g = true →
      g.assignable h = true → f.assignable h = true := by
  refine ⟨fun f hf slot => hf.locals.getD_expand slot, fun f g hf hg => hf.assignable_iff hg,
    fun f hf => (hf.assignable_iff hf).2 (.refl f), fun f g h hf hg hh hfg hgh => ?_⟩
  have hsuits := ((hf.assignable_iff hg).1 hfg).trans ((hg.assignable_iff hh).1 hgh)
  exact (hf.assignable_iff hh).2 hsuits

/-- A wide local goes to two unusable ones, a local behind them stays, and the last one is dropped. -/
theorem assignable_slotwise_misaligned :
    let f := ofLists [.long, .integer, .double] [.null]
    let g := ofLists [.top, .top, .integer, .top, .top, .top] [.object ⟨2⟩]
    let h := ofLists [.top, .top, .integer] [.top]
    f.Pushed ∧ g.Pushed ∧ h.Pushed ∧ f.Suits g ∧ g.Suits h ∧ f.assignable h = true ∧ ¬ h.Suits f := by
  intro f g h
  obtain ⟨-, hiff, -, htrans⟩ := assignable_slotwise
  have hf : f.Pushed := pushed_ofLists _ _
  have hg : g.Pushed := pushed_ofLists _ _
  have hh : h.Pushed := pushed_ofLists _ _
  have hfg : f.assignable g = true := by decide
  have hgh : g.assignable h = true := by decide
  have hhf : ¬ h.assignable f = true := by decide
  exact ⟨hf, hg, hh, (hiff f g hf hg).1 hfg, (hiff g h hg hh).1 hgh, htrans f g h hf hg hh hfg hgh,
    fun hs => hhf ((hiff h f hh hf).2 hs)⟩

end Frame

end ClassForge
