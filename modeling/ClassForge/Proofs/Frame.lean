import ClassForge.Verification.Frame
import ClassForge.Proofs.Interning
import ClassForge.Proofs.Slots

/-!
# Operand stacks

A frame seen from the top of its stack. Popping operands and pushing results succeeds exactly when
the values on top can stand for the operands, and leaves what lay below them. Of locals, an edge brings
along the ones that its target can use.
-/

namespace ClassForge

instance : Slots.Spacious VType := ⟨VType.width_pos⟩

namespace Slots

variable {α : Type} [Wide α]

theorem ofList_append (as bs : List α) : ofList (as ++ bs) = (ofList as).extend bs :=
  List.foldl_append ..

theorem ofList_concat (as : List α) (a : α) : ofList (as ++ [a]) = ((ofList as).push a).2 :=
  ofList_append as [a]

theorem ofList_extend (as bs : List α) : (ofList as).extend bs = ofList (as ++ bs) :=
  (ofList_append as bs).symm

theorem length_elements {α : Type} (s : Slots α) : s.elements.length = s.length := by
  simp [elements, toList, length]

theorem elements_ofList (as : List α) : (ofList as).elements = as := elements_extend empty as

theorem stop_ofList (as : List α) : (ofList as).stop = widths as :=
  (stop_extend empty as).trans (Nat.zero_add _)

theorem pushed_ofList (as : List α) : (ofList as).Pushed := pushed_extend 0 as

theorem widths_reverse (as : List α) : widths as.reverse = widths as := by
  induction as with
  | nil => rfl
  | cons a as ih =>
      rw [List.reverse_cons, widths_append, ih, Nat.add_comm]
      rfl

end Slots

/-- The values on top of the stack can stand for the operands, the first for the first. -/
def Meets : List VType → List VType → Prop
  | _, [] => True
  | [], _ :: _ => False
  | t :: stack, e :: operands => t.assignable e = true ∧ Meets stack operands

instance : (stack operands : List VType) → Decidable (Meets stack operands)
  | [], [] | _ :: _, [] => inferInstanceAs (Decidable True)
  | [], _ :: _ => inferInstanceAs (Decidable False)
  | t :: stack, e :: operands =>
    have := instDecidableMeets stack operands
    inferInstanceAs (Decidable (t.assignable e = true ∧ Meets stack operands))

theorem meets_nil (stack : List VType) : Meets stack [] := by
  cases stack <;> trivial

namespace Frame

/-- The frame with the given locals and stack, the top of the stack first. -/
def ofOperands (locals : Slots VType) (stack : List VType) : Frame := ⟨locals, .ofList stack.reverse⟩

theorem ofLists_eq (locals stack : List VType) :
    ofLists locals stack = ofOperands (.ofList locals) stack.reverse := by
  rw [ofOperands, List.reverse_reverse]
  rfl

variable {locals : Slots VType} {stack : List VType} {t e : VType} {f : Frame}

/-- There is a local behind the others if its slot fits into 16 bits. -/
theorem reserve_eq_ok {slot : UInt16} {g : Frame} : f.reserve t = .ok (slot, g) ↔
    slot.toNat = f.locals.stop ∧ g = { f with locals := (f.locals.push t).2 } := by
  unfold reserve
  split
  next hlt =>
    refine ⟨fun h => ?_, fun h => ?_⟩
    · cases h
      exact ⟨UInt16.toNat_ofNat_of_lt' hlt, rfl⟩
    · obtain ⟨hslot, rfl⟩ := h
      rw [← hslot, UInt16.ofNat_toNat]
  next hlt =>
    refine iff_of_false nofun fun h => hlt ?_
    rw [← h.1]
    exact slot.toNat_lt

theorem stop_stack : (ofOperands locals stack).stack.stop = Slots.widths stack := by
  rw [ofOperands, Slots.stop_ofList, Slots.widths_reverse]

theorem elements_stack : (ofOperands locals stack).stack.elements = stack.reverse :=
  Slots.elements_ofList _

theorem push_ofOperands : (ofOperands locals stack).push t = ofOperands locals (t :: stack) := by
  rw [ofOperands, ofOperands, List.reverse_cons, Slots.ofList_concat]
  rfl

theorem foldl_push (ts : List VType) :
    ts.foldl push (ofOperands locals stack) = ofOperands locals (ts.reverse ++ stack) := by
  induction ts generalizing stack with
  | nil => rfl
  | cons t ts ih => rw [List.foldl_cons, push_ofOperands, ih, List.reverse_cons, List.append_assoc]; rfl

theorem pop_cons : (ofOperands locals (t :: stack)).pop = .ok (t, ofOperands locals stack) := by
  rw [← push_ofOperands]
  rfl

theorem last?_cons : (ofOperands locals (t :: stack)).stack.last? = some t := by
  rw [← push_ofOperands]
  rfl

theorem popExpecting_cons : (ofOperands locals (t :: stack)).popExpecting e =
    if t.assignable e then .ok (ofOperands locals stack) else .error (.invalidType e t) := by
  rw [popExpecting, pop_cons]
  rfl

theorem foldlM_popExpecting_eq_ok {pops : List VType} :
    pops.foldlM popExpecting (ofOperands locals stack) = .ok f ↔
      Meets stack pops ∧ f = ofOperands locals (stack.drop pops.length) := by
  induction pops generalizing stack with
  | nil => simp [meets_nil, pure, Except.pure, eq_comm]
  | cons e pops ih =>
      rw [List.foldlM_cons, except_bind_eq_ok]
      cases stack with
      | nil =>
          refine ⟨fun ⟨_, h, _⟩ => ?_, fun h => absurd h.1 id⟩
          cases h
      | cons t stack =>
          rw [popExpecting_cons]
          by_cases ht : t.assignable e
          · simp [ht, ih, Meets]
          · simp [ht, Meets]

/-- Operands are taken from the top, and the last result ends up on top. -/
theorem exchange_eq_ok {pops pushes : List VType} :
    (ofOperands locals stack).exchange pops pushes = .ok f ↔
      Meets stack pops ∧ f = ofOperands locals (pushes.reverse ++ stack.drop pops.length) := by
  rw [exchange, except_bind_eq_ok]
  simp only [foldlM_popExpecting_eq_ok, pure, Except.pure, Except.ok.injEq]
  refine ⟨fun ⟨g, ⟨hm, hg⟩, hf⟩ => ⟨hm, ?_⟩, fun ⟨hm, hf⟩ => ⟨_, ⟨hm, rfl⟩, ?_⟩⟩
  · rw [← hf, hg, foldl_push]
  · rw [hf, foldl_push]

end Frame

/-! ## Locals -/

theorem VType.top_assignable_iff {e : VType} : VType.top.assignable e = true ↔ e = .top := by
  cases e <;> simp [assignable]

/-- Elements above a slot do not matter for what is found at it or below. -/
theorem Slots.find?_dropWhile {α : Type} {es : List (Nat × α)} {o slot : Nat} (h : o ≤ slot) :
    find? o (es.dropWhile fun e => slot < e.1) = find? o es := by
  induction es with
  | nil => rfl
  | cons e es ih =>
      by_cases he : slot < e.1
      · simp [he, ih, find?, Nat.lt_of_le_of_lt h he]
      · simp [he]

namespace Frame

variable {f g : Frame} {t : VType}

/-- The newest expected local is checked against what is found at its slot. What is passed over on the
way has no part in the checks of the others. -/
theorem localsAssignable_cons (found : List (Nat × VType)) (slot : Nat) (x : VType)
    (rest : List (Nat × VType)) : ∃ left,
      (∀ o < slot, Slots.find? o left = Slots.find? o found) ∧
      (localsAssignable found ((slot, x) :: rest) = true ↔
        ((Slots.find? slot found).getD .top).assignable x = true ∧
          localsAssignable left rest = true) := by
  have hfind : ∀ o ≤ slot, Slots.find? o (found.dropWhile fun e => slot < e.1) =
      Slots.find? o found := fun o ho => Slots.find?_dropWhile ho
  rw [localsAssignable, ← hfind slot (Nat.le_refl _)]
  cases hd : found.dropWhile fun e => slot < e.1 with
  | nil =>
      rw [hd] at hfind
      exact ⟨[], fun o ho => hfind o (Nat.le_of_lt ho),
        by simp [Slots.find?, VType.top_assignable_iff]⟩
  | cons e below =>
      obtain ⟨o, t⟩ := e
      rw [hd] at hfind
      have hup : ¬ slot < o := by
        have hhead := List.head?_dropWhile_not (fun e : Nat × VType => decide (slot < e.1)) found
        rw [hd] at hhead
        simpa using hhead
      by_cases ho : o = slot
      · subst ho
        refine ⟨below, fun i hi => ?_, by simp [Slots.find?]⟩
        rw [← hfind i (Nat.le_of_lt hi)]
        simp [Slots.find?, hi]
      · exact ⟨(o, t) :: below, fun i hi => hfind i (Nat.le_of_lt hi),
          by simp [Slots.find?, hup, ho, VType.top_assignable_iff]⟩

theorem localsAssignable_iff {found expected : List (Nat × VType)}
    (hf : expected.Pairwise fun a b => b.1 < a.1) : localsAssignable found expected = true ↔
      ∀ e ∈ expected, ((Slots.find? e.1 found).getD .top).assignable e.2 = true := by
  induction expected generalizing found with
  | nil => simp [localsAssignable]
  | cons e rest ih =>
      obtain ⟨hlt, hrest⟩ := List.pairwise_cons.1 hf
      obtain ⟨left, hleft, hcons⟩ := localsAssignable_cons found e.1 e.2 rest
      rw [hcons, ih hrest, List.forall_mem_cons]
      refine and_congr_right fun _ => forall_congr' fun x => forall_congr' fun hx => ?_
      rw [hleft x.1 (hlt x hx)]

/-- What an edge may use as a local comes over the edge as one. -/
theorem exists_local_of_assignable {slot : Nat} {e : VType} (h : f.assignable g = true)
    (hg : g.locals.Ordered) (hs : g.locals.get? slot = some e)
    (he : e ≠ .top) : ∃ t, f.locals.get? slot = some t ∧ t ≠ .top := by
  simp only [assignable, Bool.and_eq_true] at h
  have ht := (localsAssignable_iff hg.falling).1 h.2 (slot, e) (hg.get?_eq_some_iff.1 hs)
  have htop : (f.locals.get? slot).getD .top ≠ .top :=
    fun hno => he (VType.top_assignable_iff.1 (hno ▸ ht))
  cases hf : f.locals.get? slot with
  | none => simp [hf] at htop
  | some t => exact ⟨t, rfl, by simpa [hf] using htop⟩

theorem locals_of_pop (h : f.pop = .ok (t, g)) : g.locals = f.locals := by
  unfold pop at h
  split at h
  · cases h
  · cases h
    rfl

theorem locals_of_popExpecting {e : VType} (h : f.popExpecting e = .ok g) : g.locals = f.locals := by
  obtain ⟨⟨found, f'⟩, hp, h⟩ := except_bind_eq_ok.1 h
  by_cases ha : found.assignable e
  · simp only [ha, if_true] at h
    cases h
    exact locals_of_pop hp
  · simp only [ha] at h
    cases h

theorem locals_of_pops {pops : List VType} (h : pops.foldlM popExpecting f = .ok g) :
    g.locals = f.locals := by
  induction pops generalizing f with
  | nil =>
      cases h
      rfl
  | cons e pops ih =>
      obtain ⟨f₁, h₁, h⟩ := except_bind_eq_ok.1 h
      rw [ih h, locals_of_popExpecting h₁]

theorem locals_foldl_push (f : Frame) (pushes : List VType) :
    (pushes.foldl push f).locals = f.locals := by
  induction pushes generalizing f with
  | nil => rfl
  | cons t pushes ih => exact ih (f.push t)

/-- An exchange changes the stack only. -/
theorem locals_of_exchange {pops pushes : List VType} (h : f.exchange pops pushes = .ok g) :
    g.locals = f.locals := by
  obtain ⟨f', hpops, h⟩ := except_bind_eq_ok.1 h
  cases h
  rw [locals_foldl_push, locals_of_pops hpops]

end Frame

end ClassForge
