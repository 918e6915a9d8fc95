import ClassForge.Proofs.Assembly.Draft
import ClassForge.Proofs.Frame
import ClassForge.Proofs.Resolution
import ClassForge.Proofs.SlotEdits
import Mathlib.Data.List.Forall2

/-!
# Entry frames

A method of a given type starts with an empty stack and with its parameters in the locals, each behind
the slots of those before it. The main result is `MethodDraft.entry_of_ofType`.
-/

namespace ClassForge

/-! ## Asking a pool again -/

namespace Pool

/-- Every constant that has an index keeps it. -/
def Keeps (pool pool' : Pool) : Prop :=
  ∀ (c : Constant) (i : UInt16), pool.indices[c]? = some i → pool'.indices[c]? = some i

theorem Keeps.refl (pool : Pool) : pool.Keeps pool := fun _ _ h => h

theorem Keeps.trans {pool pool' pool'' : Pool} (h : pool.Keeps pool') (h' : pool'.Keeps pool'') :
    pool.Keeps pool'' := fun c i hi => h' c i (h c i hi)

end Pool

namespace Interning

variable {α β : Type} {x : Interning α} {f : α → Interning β}

/-- No index changes, and a result that was given once is given again without any addition. -/
structure Repeats (x : Interning α) : Prop where
  keeps : ∀ pool : Pool, pool.Keeps (x pool).2
  again : ∀ {pool pool' later : Pool} {a : α}, x pool = (.ok a, pool') → pool'.Keeps later →
    x later = (.ok a, later)

theorem repeats_pure (a : α) : Repeats (pure a : Interning α) where
  keeps := Pool.Keeps.refl
  again h _ := by
    obtain ⟨rfl, -⟩ := pure_eq_ok.1 h
    rfl

theorem Repeats.bind (hx : Repeats x) (hf : ∀ a, Repeats (f a)) : Repeats (x >>= f) where
  keeps pool := by
    rcases bind_cases (Prod.mk.eta.symm : (x >>= f) pool = _) with ⟨e, h, -⟩ | ⟨a, pool₁, h, h'⟩
    · have hk := hx.keeps pool
      rwa [h] at hk
    · have hk := hx.keeps pool
      have hk' := (hf a).keeps pool₁
      rw [h] at hk
      rw [h'] at hk'
      exact hk.trans hk'
  again {pool pool' later b} h hl := by
    obtain ⟨a, pool₁, ha, hb⟩ := bind_eq_ok.1 h
    have hk := (hf a).keeps pool₁
    rw [hb] at hk
    exact bind_eq_ok.2 ⟨a, later, hx.again ha (hk.trans hl), (hf a).again hb hl⟩

theorem repeats_mapM (hf : ∀ a, Repeats (f a)) (as : List α) : Repeats (as.mapM f) := by
  induction as with
  | nil => exact repeats_pure _
  | cons a as ih =>
      rw [List.mapM_cons]
      exact (hf a).bind fun _ => ih.bind fun _ => repeats_pure _

/-- What a list of steps gave is what each of them gives from then on. -/
theorem forall₂_of_mapM (hf : ∀ a, Repeats (f a)) {as : List α} {bs : List β}
    {pool pool' later : Pool} (h : as.mapM f pool = (.ok bs, pool')) (hl : pool'.Keeps later) :
    List.Forall₂ (fun a b => f a later = (.ok b, later)) as bs := by
  induction as generalizing pool bs with
  | nil =>
      rw [List.mapM_nil] at h
      obtain ⟨rfl, -⟩ := pure_eq_ok.1 h
      exact .nil
  | cons a as ih =>
      rw [List.mapM_cons] at h
      obtain ⟨b, pool₁, hb, h⟩ := bind_eq_ok.1 h
      obtain ⟨bs', pool₂, hbs, h⟩ := bind_eq_ok.1 h
      obtain ⟨rfl, rfl⟩ := pure_eq_ok.1 h
      -- the steps behind the first one have not changed its answer
      have hk := (repeats_mapM hf as).keeps pool₁
      rw [hbs] at hk
      exact .cons ((hf a).again hb (hk.trans hl)) (ih hbs)

end Interning

namespace Pool

open Interning

/-- A constant has an index, or gets one, or finds no room. -/
theorem intern_cases (c : Constant) (pool : Pool) :
    (∃ i, pool.indices[c]? = some i ∧ intern c pool = (.ok ⟨i⟩, pool)) ∨
      pool.indices[c]? = none ∧ ((∃ e, intern c pool = (.error e, pool)) ∨
        ∃ i cs, intern c pool = (.ok ⟨i⟩, ⟨cs, pool.indices.insert c i⟩)) := by
  unfold intern
  cases hc : pool.indices[c]? with
  | some i => exact .inl ⟨i, rfl, rfl⟩
  | none =>
      refine .inr ⟨rfl, ?_⟩
      dsimp only
      split
      · exact .inl ⟨_, rfl⟩
      · exact .inr ⟨_, _, rfl⟩

theorem repeats_intern (c : Constant) : Repeats (intern c) where
  keeps pool d j hd := by
    rcases intern_cases c pool with ⟨i, -, h⟩ | ⟨hc, ⟨e, h⟩ | ⟨i, cs, h⟩⟩
    · rwa [h]
    · rwa [h]
    · have hcd : c ≠ d := by
        rintro rfl
        cases hc.symm.trans hd
      simp [h, Std.HashMap.getElem?_insert, hcd, hd]
  again {pool pool' later i} h hl := by
    have hi : pool'.indices[c]? = some i.val := by
      rcases intern_cases c pool with ⟨j, hc, h'⟩ | ⟨-, ⟨e, h'⟩ | ⟨j, cs, h'⟩⟩ <;>
        cases h.symm.trans h'
      · exact hc
      · simp
    unfold intern
    rw [hl c i.val hi]

theorem repeats_internAs (kind : IndexKind) (c : Constant) : Repeats (internAs kind c) :=
  (repeats_intern c).bind fun _ => repeats_pure _

theorem repeats_classNamed (name : String) : Repeats (classNamed name) :=
  (repeats_internAs _ _).bind fun _ => repeats_internAs _ _

theorem repeats_typeOf (t : FieldType) : Repeats (typeOf t) := by
  cases t with
  | base b => cases b <;> exact repeats_pure _
  | object name | value name | array t => exact (repeats_classNamed _).bind fun _ => repeats_pure _

theorem repeats_typeOf? (t : Option FieldType) : Repeats (typeOf? t) := by
  cases t with
  | none => exact repeats_pure _
  | some t => exact (repeats_typeOf t).bind fun _ => repeats_pure _

theorem width_of_typeOf {t : FieldType} {v : VType} {pool pool' : Pool}
    (h : typeOf t pool = (.ok v, pool')) : v.width = t.width := by
  cases t with
  | base b => cases b <;> cases h <;> rfl
  | object name | value name | array t =>
      obtain ⟨i, pool₁, -, h⟩ := bind_eq_ok.1 h
      obtain ⟨rfl, -⟩ := pure_eq_ok.1 h
      rfl

end Pool

/-! ## Parameters in slots -/

namespace MethodType

/-- The slot of a parameter, behind the receiver and the parameters before it. -/
def slotOf (m : MethodType) (hasReceiver : Bool) (i : Nat) : Nat :=
  (if hasReceiver then 1 else 0) + (m.parameters.take i).foldr (fun t n => t.width + n) 0

end MethodType

theorem widths_of_forall₂ {ts : List FieldType} {vs : List VType}
    (h : List.Forall₂ (fun t v => VType.width v = FieldType.width t) ts vs) :
    Slots.widths vs = ts.foldr (fun t n => t.width + n) 0 := by
  induction h with
  | nil => rfl
  | cons hv _ ih =>
      rw [Slots.widths, ih, List.foldr_cons, ← hv]
      rfl

namespace Slots

variable {α : Type} [Wide α] {as : List α} {k : Nat} {a : α}

theorem mem_newest_ofList (h : as[k]? = some a) : (widths (as.take k), a) ∈ (ofList as).newest := by
  have he : (ofList as).elements[k]? = some a := by rw [elements_ofList, h]
  obtain ⟨⟨slot, b⟩, hk, rfl⟩ := Option.map_eq_some_iff.1 ((List.getElem?_map ..).symm.trans he)
  have hstart : (ofList as).start = 0 := start_extend empty as
  have hslot := (pushed_ofList as).slot_eq k slot b hk
  rw [elements_ofList, hstart, Nat.zero_add] at hslot
  subst hslot
  exact List.mem_reverse.1 (List.mem_of_getElem? hk)

end Slots

namespace Frame

variable {f : Frame} {slot : UInt16} {v : VType}

theorem localAt_of_some (h : f.locals.get? slot.toNat = some v) : f.localAt slot = .ok v := by
  simp [localAt, h]

theorem localAt_of_none (h : f.locals.get? slot.toNat = none) :
    f.localAt slot = .error (.unreservedLocal slot) := by
  simp [localAt, h]

/-- The frame of a method before its first instruction. The receiver comes first, if there is one, and
then the parameters with the types that `Types` gives them; a wide one also takes the next slot. -/
structure Enters (f : Frame) (Types : FieldType → VType → Prop) (type : MethodType)
    (receiver : Option (Index .classInfo)) : Prop where
  stack : f.stack = .empty
  width : f.locals.totalWidth = type.parameterWidth receiver.isSome
  object : ∀ c, receiver = some c → f.localAt 0 = .ok (.object c)
  parameter : ∀ i t, type.parameters[i]? = some t → ∃ v, Types t v ∧
    (type.slotOf receiver.isSome i < 65536 →
      f.localAt (UInt16.ofNat (type.slotOf receiver.isSome i)) = .ok v)
  second : ∀ i t, type.parameters[i]? = some t → t = .base .long ∨ t = .base .double →
    ∀ slot : UInt16, slot.toNat = type.slotOf receiver.isSome i + 1 →
      f.localAt slot = .error (.unreservedLocal slot)

variable {Types Types' : FieldType → VType → Prop} {type : MethodType}
  {receiver : Option (Index .classInfo)}

theorem Enters.mono (h : f.Enters Types type receiver) (ht : ∀ t v, Types t v → Types' t v) :
    f.Enters Types' type receiver where
  stack := h.stack
  width := h.width
  object := h.object
  parameter i t hi := by
    obtain ⟨v, hv, hslot⟩ := h.parameter i t hi
    exact ⟨v, ht t v hv, hslot⟩
  second := h.second

theorem widths_receiver (receiver : Option (Index .classInfo)) :
    Slots.widths (receiver.map VType.object).toList = if receiver.isSome then 1 else 0 := by
  cases receiver <;> rfl

/-- Parameters stand at their slots, since their types are as wide as the verifier's. -/
theorem mem_locals_of_parameter {vs : List VType} {i : Nat} {v : VType}
    (h : List.Forall₂ Types type.parameters vs) (hw : ∀ t v, Types t v → v.width = t.width)
    (hi : vs[i]? = some v) : (type.slotOf receiver.isSome i, v) ∈
      (Slots.ofList ((receiver.map VType.object).toList ++ vs)).newest := by
  have hslot : Slots.widths (((receiver.map VType.object).toList ++ vs).take
      ((receiver.map VType.object).toList.length + i)) = type.slotOf receiver.isSome i := by
    have hws : Slots.widths (vs.take i) = _ := widths_of_forall₂ (List.forall₂_take i (h.imp hw))
    rw [List.take_length_add_append, Slots.widths_append, widths_receiver, hws, MethodType.slotOf]
  rw [← hslot]
  refine Slots.mem_newest_ofList ?_
  rw [List.getElem?_append_right (Nat.le_add_right _ _), Nat.add_sub_cancel_left, hi]

theorem enters_ofLists {vs : List VType} (receiver : Option (Index .classInfo))
    (h : List.Forall₂ Types type.parameters vs) (hw : ∀ t v, Types t v → v.width = t.width) :
    (ofLists ((receiver.map VType.object).toList ++ vs) []).Enters Types type receiver := by
  have hp := Slots.pushed_ofList ((receiver.map VType.object).toList ++ vs)
  have hget : ∀ (i : Nat) (t : FieldType), type.parameters[i]? = some t →
      ∃ v, vs[i]? = some v ∧ Types t v := by
    intro i t hi
    obtain ⟨hlt, rfl⟩ := List.getElem?_eq_some_iff.1 hi
    have hlt' : i < vs.length := h.length_eq ▸ hlt
    exact ⟨vs[i], List.getElem?_eq_getElem hlt', (List.forall₂_iff_get.1 h).2 i hlt hlt'⟩
  refine ⟨rfl, ?_, ?_, fun i t hi => ?_, fun i t hi hwide slot hslot => ?_⟩
  · rw [ofLists, hp.totalWidth_eq, Slots.elements_ofList, Slots.widths_append, widths_receiver,
      widths_of_forall₂ (h.imp hw), MethodType.parameterWidth]
  · rintro c rfl
    exact localAt_of_some (hp.ordered.get?_eq_some_iff.2
      (Slots.mem_newest_ofList (k := 0) (a := VType.object c) rfl))
  · obtain ⟨v, hv, ht⟩ := hget i t hi
    refine ⟨v, ht, fun hslot => localAt_of_some ?_⟩
    rw [UInt16.toNat_ofNat_of_lt' hslot]
    exact hp.ordered.get?_eq_some_iff.2 (mem_locals_of_parameter h hw hv)
  · obtain ⟨v, hv, ht⟩ := hget i t hi
    have htwo : Wide.width v = 2 := by
      rw [show Wide.width v = t.width from hw t v ht]
      rcases hwide with rfl | rfl <;> rfl
    refine localAt_of_none (hp.get?_inside (mem_locals_of_parameter h hw hv) ?_ ?_)
    · omega
    · omega

end Frame

namespace MethodDraft

variable {type : MethodType} {receiver : Option (Index .classInfo)} {m : MethodDraft}
  {pool pool' : Pool}

/-- A method that was started from its type enters with its receiver and its parameters. They have the
types that the pool gives for them, which in a sound pool are those of the class constants. -/
theorem entry_of_ofType (h : ofType type receiver pool = (.ok m, pool')) :
    ∃ b, m.block? .entry = .ok b ∧ b.frame = b.entry ∧
      b.entry.Enters (fun t v => Pool.typeOf t pool' = (.ok v, pool')) type receiver ∧
      (pool.Sound → b.entry.Enters (fun t v => pool'.constants.vtype? t = some v) type receiver) := by
  obtain ⟨parameters, returns, pool₁, hp, hr, rfl⟩ := ofType_eq_ok h
  have hk := (Pool.repeats_typeOf? type.returns).keeps pool₁
  rw [hr] at hk
  have henters := Frame.enters_ofLists receiver (Interning.forall₂_of_mapM Pool.repeats_typeOf hp hk)
    fun t v => Pool.width_of_typeOf
  refine ⟨_, rfl, rfl, henters, fun hs => henters.mono fun t v ht => ?_⟩
  have hs' : pool'.Sound :=
    (Pool.typeOf?_eq_ok (Pool.mapM_typeOf_eq_ok hs hp).1.sound hr).1.sound
  exact (Pool.typeOf_eq_ok hs' ht).2

/-- A pool that has a class `A` at index 2. -/
def lone : Pool := (Pool.classNamed "A" Pool.empty).2

/-- Wide parameters around a reference that is new to the pool. -/
def wides : MethodType := ⟨[.base .long, .array (.object "A"), .base .double, .base .byte], none⟩

theorem sound_lone : lone.Sound :=
  ((Pool.interns_classNamed (R := fun _ => False) "A").grows Pool.sound_empty).sound

theorem entry_of_ofType_wides : ∃ m pool' b, ofType wides (some ⟨2⟩) lone = (.ok m, pool') ∧
    m.block? .entry = .ok b ∧
    b.entry = .ofLists [.object ⟨2⟩, .long, .object ⟨4⟩, .double, .integer] [] ∧
    b.entry.Enters (fun t v => Pool.typeOf t pool' = (.ok v, pool')) wides (some ⟨2⟩) ∧
    b.entry.Enters (fun t v => pool'.constants.vtype? t = some v) wides (some ⟨2⟩) := by
  have h : ofType wides (some ⟨2⟩) lone = (.ok (start [.object ⟨2⟩, .long, .object ⟨4⟩, .double,
      .integer] none), (ofType wides (some ⟨2⟩) lone).2) := by
    have hr : FieldType.render (.array (.object "A")) = "[LA;" := rfl
    refine Prod.ext ?_ rfl
    simp [ofType, wides, lone, Pool.typeOf, Pool.typeOf?, hr, Pool.classNamed, Pool.classInfo, Pool.utf8,
      Pool.internAs_mk, Pool.empty_eq, Constant.width, Interning.pure_apply, bind_apply,
      Interning.map_apply, Except.map]
  obtain ⟨b, hb, -, hgiven, hnamed⟩ := entry_of_ofType h
  cases hb
  exact ⟨_, _, _, h, rfl, rfl, hgiven, hnamed sound_lone⟩

end MethodDraft

end ClassForge
