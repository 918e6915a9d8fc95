import ClassForge.Proofs.Constants
import ClassForge.Proofs.Interning

/-!
# The constant pool over whole runs

A pool that starts empty or from the constants of a class keeps its list and its index in step, so
every constant has one index for good. The main result is `Pool.consistent_of_served`.
-/

namespace ClassForge

instance : Slots.Spacious Constant := ⟨Constant.width_pos⟩

namespace Pool

variable {pool pool' pool'' : Pool} {c d : Constant} {i : Index .any}

/-! ## The list and its index -/

/-- The index leads to the first of equal constants. -/
structure Sound (pool : Pool) : Prop where
  pushed : pool.constants.Pushed
  stop_le : pool.constants.stop ≤ 65535
  index : ∀ c, pool.indices[c]? = (pool.constants.firstSlot? c).map UInt16.ofNat

theorem sound_empty : Pool.empty.Sound := by
  refine ⟨⟨[], rfl⟩, by decide, fun c => ?_⟩
  simp [Pool.empty, Constants.empty, Slots.firstSlot?, Slots.emptyAt, Slots.toList]

theorem getElem?_foldl_insertIfNew (es : List (Nat × Constant)) (m : Std.HashMap Constant UInt16) :
    (es.foldl (fun m (i, c) => m.insertIfNew c (UInt16.ofNat i)) m)[c]? =
      m[c]?.or ((es.find? fun e => e.2 = c).map fun e => UInt16.ofNat e.1) := by
  induction es generalizing m with
  | nil => simp
  | cons e es ih =>
      rw [List.foldl_cons, ih, Std.HashMap.getElem?_insertIfNew, List.find?_cons]
      by_cases hc : e.2 = c
      · by_cases hm : c ∈ m
        · simp [hc, hm]
        · simp [hc, hm]
      · simp [hc]

theorem sound_ofConstants {cs : Constants} (hp : cs.Pushed) (hs : cs.stop ≤ 65535) :
    (ofConstants cs).Sound := by
  refine ⟨hp, hs, fun c => ?_⟩
  simp only [ofConstants, getElem?_foldl_insertIfNew, Slots.firstSlot?, Option.map_map]
  simp [Function.comp_def]

namespace Sound

theorem ordered (h : pool.Sound) : pool.constants.Ordered := h.pushed.ordered

theorem firstSlot?_le (h : pool.Sound) {n : Nat} (hn : pool.constants.firstSlot? c = some n) :
    n ≤ 65535 :=
  Nat.le_trans (Nat.le_of_lt (h.ordered.lt_stop (h.ordered.get?_of_firstSlot? hn))) h.stop_le

end Sound

/-- The constant is at an index, which is the first that it is at. -/
def Holds (pool : Pool) (c : Constant) {kind : IndexKind} (i : Index kind) : Prop :=
  pool.constants.firstSlot? c = some i.val.toNat

theorem Holds.lookup? {kind : IndexKind} {i : Index kind} (h : pool.Holds c i) (hs : pool.Sound) :
    pool.constants.lookup? i = some c :=
  hs.ordered.get?_of_firstSlot? h

theorem Holds.mem {kind : IndexKind} {i : Index kind} (h : pool.Holds c i) :
    c ∈ pool.constants.elements := by
  by_contra hc
  rw [Holds, Slots.firstSlot?_eq_none_iff.2 hc] at h
  cases h

/-! ## One call -/

/-- A constant that is there is found, one that is new is added, and there may be no room. -/
inductive Interned (pool : Pool) (c : Constant) : Except Error (Index .any) → Pool → Prop
  | found {i : Index .any} : pool.Holds c i → Interned pool c (.ok i) pool
  | added {pool' : Pool} {i : Index .any} : c ∉ pool.constants.elements →
      pool.size + c.width ≤ 65535 → i.val.toNat = pool.size →
      pool'.constants = (pool.constants.push c).2 → pool'.indices = pool.indices.insert c i.val →
      Interned pool c (.ok i) pool'
  | full : c ∉ pool.constants.elements → 65535 < pool.size + c.width →
      Interned pool c (.error (.constantPoolOverflow c pool.size)) pool

theorem Sound.interned (h : pool.Sound) (c : Constant) :
    Interned pool c (intern c pool).1 (intern c pool).2 := by
  have hindex := h.index c
  unfold intern
  cases hc : pool.constants.firstSlot? c with
  | some n =>
      rw [hc, Option.map_some] at hindex
      rw [hindex]
      refine .found ?_
      rw [Holds, hc, toNat_ofNat_u16 (h.firstSlot?_le hc)]
  | none =>
      rw [hc, Option.map_none] at hindex
      rw [hindex]
      have hmem := Slots.firstSlot?_eq_none_iff.1 hc
      by_cases hw : pool.constants.stop + c.width > 65535
      · simp only [hw, if_true]
        exact .full hmem hw
      · simp only [hw, if_false]
        exact .added hmem (Nat.le_of_not_lt hw) (toNat_ofNat_u16 h.stop_le) rfl rfl

theorem Sound.interned_of_eq {r : Except Error (Index .any)} (h : pool.Sound)
    (hi : intern c pool = (r, pool')) : Interned pool c r pool' := by
  have hc := h.interned c
  rwa [hi] at hc

theorem Interned.holds (h : Interned pool c (.ok i) pool') : pool'.Holds c i := by
  cases h with
  | found hc => exact hc
  | added hn _ hi hcs _ =>
      rw [Holds, hcs, Slots.firstSlot?_push, Slots.firstSlot?_eq_none_iff.2 hn, Option.none_or,
        if_pos rfl, hi]
      rfl

theorem Interned.sound {r : Except Error (Index .any)} (h : Interned pool c r pool')
    (hs : pool.Sound) : pool'.Sound := by
  cases h with
  | found _ => exact hs
  | full _ _ => exact hs
  | @added _ i hn hw hi hcs hix =>
      refine ⟨by rw [hcs]; exact hs.pushed.extend [c], by rw [hcs]; exact hw, fun d => ?_⟩
      have hval : i.val = UInt16.ofNat pool.constants.stop := by
        rw [← UInt16.ofNat_toNat (x := i.val), hi]
        rfl
      rw [hcs, hix, Std.HashMap.getElem?_insert, Slots.firstSlot?_push, hs.index d]
      by_cases hd : c = d
      · rw [← hd, Slots.firstSlot?_eq_none_iff.2 hn]
        simp [hval]
      · simp [hd]

/-! ## Growth -/

/-- Constants were added at the end, none of them one that was there. -/
def Extends (pool pool' : Pool) : Prop :=
  ∃ new, pool'.constants = pool.constants.extend new ∧ new.Nodup ∧
    ∀ c ∈ new, c ∉ pool.constants.elements

theorem Extends.refl (pool : Pool) : pool.Extends pool := ⟨[], rfl, .nil, by simp⟩

theorem Extends.trans (h : pool.Extends pool') (h' : pool'.Extends pool'') :
    pool.Extends pool'' := by
  obtain ⟨as, ha, hna, hda⟩ := h
  obtain ⟨bs, hb, hnb, hdb⟩ := h'
  rw [ha, Slots.elements_extend] at hdb
  refine ⟨as ++ bs, ?_, List.nodup_append.2 ⟨hna, hnb, ?_⟩, ?_⟩
  · rw [hb, ha]
    exact (List.foldl_append ..).symm
  · intro c hc d hd hcd
    exact hdb d hd (List.mem_append_right _ (hcd ▸ hc))
  · intro c hc hmem
    rcases List.mem_append.1 hc with hc | hc
    · exact hda c hc hmem
    · exact hdb c hc (List.mem_append_left _ hmem)

theorem Interned.extends {r : Except Error (Index .any)} (h : Interned pool c r pool') :
    pool.Extends pool' := by
  cases h with
  | found _ => exact .refl _
  | full _ _ => exact .refl _
  | added hn _ _ hcs _ => exact ⟨[c], hcs, by simp, by simpa using hn⟩

theorem Extends.holds {kind : IndexKind} {i : Index kind} (h : pool.Extends pool')
    (hc : pool.Holds c i) : pool'.Holds c i := by
  obtain ⟨new, hnew, -⟩ := h
  rw [Holds, hnew]
  exact Slots.firstSlot?_extend hc new

theorem Extends.lookup? {kind : IndexKind} {i : Index kind} (h : pool.Extends pool')
    (hs : pool.Sound) (hc : pool.constants.lookup? i = some c) :
    pool'.constants.lookup? i = some c := by
  obtain ⟨new, hnew, -⟩ := h
  rw [Constants.lookup?, hnew]
  exact hs.ordered.get?_extend hc new

structure Grows (pool pool' : Pool) : Prop where
  sound : pool'.Sound
  added : pool.Extends pool'

theorem Grows.trans (h : pool.Grows pool') (h' : pool'.Grows pool'') : pool.Grows pool'' :=
  ⟨h'.sound, h.added.trans h'.added⟩

theorem Sound.grows (h : pool.Sound) : pool.Grows pool := ⟨h, .refl pool⟩

theorem Interned.grows {r : Except Error (Index .any)} (h : Interned pool c r pool')
    (hs : pool.Sound) : pool.Grows pool' :=
  ⟨h.sound hs, h.extends⟩

end Pool

namespace Interning

variable {α β : Type} {pool : Pool}

/-- The program does nothing to a pool but intern constants, and gives up only where `R` says
or where the pool is full. -/
inductive Interns (R : Error → Prop) : {α : Type} → Interning α → Prop
  | ofExcept {α : Type} {x : Except Error α} : (∀ e, x = .error e → R e) →
      Interns R (ofExcept x)
  | intern (c : Constant) : Interns R (Pool.intern c)
  | bind {α β : Type} {x : Interning α} {f : α → Interning β} : Interns R x →
      (∀ a, Interns R (f a)) → Interns R (x >>= f)

theorem Interns.pure {R : Error → Prop} (a : α) :
    Interns R (Pure.pure a : Interning α) :=
  .ofExcept (x := .ok a) fun _ h => by cases h

theorem Interns.mapM {R : Error → Prop} {f : α → Interning β} (hf : ∀ a, Interns R (f a))
    (as : List α) : Interns R (as.mapM f) := by
  induction as with
  | nil =>
      rw [List.mapM_nil]
      exact .pure _
  | cons a as ih =>
      rw [List.mapM_cons]
      exact .bind (hf a) fun _ => .bind ih fun _ => .pure _

theorem Interns.mono {R R' : Error → Prop} {x : Interning α} (h : Interns R x)
    (hr : ∀ e, R e → R' e) : Interns R' x := by
  induction h with
  | ofExcept hx => exact .ofExcept fun e he => hr e (hx e he)
  | intern c => exact .intern c
  | bind _ _ ihx ihf => exact .bind ihx ihf

theorem snd_bind (x : Interning α) (f : α → Interning β) (pool : Pool) :
    ((x >>= f) pool).2 =
      match (x pool).1 with
      | .ok a => (f a (x pool).2).2
      | .error _ => (x pool).2 := by
  rw [bind_apply]
  rcases x pool with ⟨_ | a, pool'⟩ <;> rfl

theorem Interns.grows {R : Error → Prop} {x : Interning α} (h : Interns R x)
    (hs : pool.Sound) : pool.Grows (x pool).2 := by
  induction h generalizing pool with
  | ofExcept _ => exact hs.grows
  | intern c => exact (hs.interned c).grows hs
  | @bind α β x f _ _ ihx ihf =>
      have hx := ihx hs
      rw [snd_bind]
      cases (x pool).1 with
      | error e => exact hx
      | ok a => exact hx.trans (ihf a hx.sound)

/-- A program with nothing to refuse fails only when the pool is full. -/
theorem Interns.error {R : Error → Prop} {x : Interning α} {e : Error} {pool' : Pool}
    (h : Interns R x) (hs : pool.Sound) (hx : x pool = (.error e, pool')) :
    R e ∨ ∃ c next, e = .constantPoolOverflow c next := by
  induction h generalizing pool with
  | ofExcept hr => exact Or.inl (hr e (congrArg Prod.fst hx))
  | intern c =>
      cases hs.interned_of_eq hx with
      | full _ _ => exact Or.inr ⟨_, _, rfl⟩
  | bind hx' _ ihx ihf =>
      rcases bind_cases hx with ⟨e', hx, he⟩ | ⟨a, pool₁, hx, hf⟩
      · cases he
        exact ihx hs hx
      · have hg := hx'.grows hs
        rw [hx] at hg
        exact ihf a hg.sound hf

/-- A step of a program runs into a full pool, or the program goes on from what it gives. -/
theorem Interns.bind_cases {x : Interning α} {f : α → Interning β} {r : Except Error β}
    {pool' : Pool} (hx : Interns (fun _ => False) x) (hs : pool.Sound)
    (h : (x >>= f) pool = (r, pool')) :
    (∃ c next, r = .error (.constantPoolOverflow c next)) ∨
      ∃ a pool₁, x pool = (.ok a, pool₁) ∧ f a pool₁ = (r, pool') := by
  rcases Interning.bind_cases h with ⟨e, he, rfl⟩ | h
  · obtain ⟨c, next, rfl⟩ := (hx.error hs he).resolve_left id
    exact Or.inl ⟨c, next, rfl⟩
  · exact Or.inr h

end Interning

/-! ## Whole runs -/

namespace Pool

variable {pool pool' start : Pool} {c d : Constant} {i : Index .any} {R : Error → Prop}

open Interning

theorem interns_internAs (kind : IndexKind) (c : Constant) : Interns R (internAs kind c) :=
  .bind (.intern c) fun _ => .pure _

theorem interns_classNamed (name : String) : Interns R (classNamed name) :=
  .bind (interns_internAs _ _) fun _ => interns_internAs _ _

theorem interns_fieldRefFor (field : FieldRef) : Interns R (fieldRefFor field) :=
  .bind (interns_classNamed _) fun _ => .bind (interns_internAs _ _) fun _ =>
    .bind (interns_internAs _ _) fun _ => .bind (interns_internAs _ _) fun _ => interns_internAs _ _

theorem interns_methodRefFor (method : MethodRef) : Interns R (methodRefFor method) :=
  .bind (interns_classNamed _) fun _ => .bind (interns_internAs _ _) fun _ =>
    .bind (interns_internAs _ _) fun _ => .bind (interns_internAs _ _) fun _ => interns_internAs _ _

theorem interns_attributeFor {α : Type} (format : BodyFormat α) (body : α) :
    Interns (∃ e, · = .unwritable e) (attributeFor format body) := by
  refine .bind (interns_internAs _ _) fun name => ?_
  cases format.write body with
  | error e => exact .ofExcept (x := .error (.unwritable e)) fun _ h => ⟨e, (Except.error.inj h).symm⟩
  | ok info => exact .pure _

theorem interns_typeOf (t : FieldType) : Interns R (typeOf t) := by
  cases t with
  | base b => cases b <;> exact .pure _
  | object name => exact .bind (interns_classNamed _) fun _ => .pure _
  | value name => exact .bind (interns_classNamed _) fun _ => .pure _
  | array t => exact .bind (interns_classNamed _) fun _ => .pure _

theorem interns_typeOf? (t : Option FieldType) : Interns R (typeOf? t) := by
  cases t with
  | none => exact .pure _
  | some t => exact .bind (interns_typeOf t) fun _ => .pure _

/-- What can be asked of a pool. -/
inductive Request : Type 1 where
  | intern (c : Constant)
  | utf8 (text : String)
  | utf16 (units : List UInt16)
  | classInfo (name : Index .utf8)
  | classNamed (name : String)
  | string (text : Index .utf8)
  | nameAndType (name descriptor : Index .utf8)
  | fieldRef (owner : Index .classInfo) (member : Index .nameAndType)
  | methodRef (owner : Index .classInfo) (member : Index .nameAndType) (onInterface : Bool)
  | invokeDynamic (bootstrap : UInt16) (member : Index .nameAndType)
  | fieldRefFor (field : FieldRef)
  | methodRefFor (method : MethodRef)
  | attributeFor {α : Type} (format : BodyFormat α) (body : α)
  | typeOf (type : FieldType)

/-- The pool after a request, whether or not it was met. -/
def serve (pool : Pool) : Request → Pool
  | .intern c => (Pool.intern c pool).2
  | .utf8 text => (Pool.utf8 text pool).2
  | .utf16 units => (Pool.utf16 units pool).2
  | .classInfo name => (Pool.classInfo name pool).2
  | .classNamed name => (Pool.classNamed name pool).2
  | .string text => (Pool.string text pool).2
  | .nameAndType name descriptor => (Pool.nameAndType name descriptor pool).2
  | .fieldRef owner member => (Pool.fieldRef owner member pool).2
  | .methodRef owner member onInterface => (Pool.methodRef owner member onInterface pool).2
  | .invokeDynamic bootstrap member => (Pool.invokeDynamic bootstrap member pool).2
  | .fieldRefFor field => (Pool.fieldRefFor field pool).2
  | .methodRefFor method => (Pool.methodRefFor method pool).2
  | .attributeFor format body => (Pool.attributeFor format body pool).2
  | .typeOf type => (Pool.typeOf type pool).2

theorem Sound.serve (h : pool.Sound) (r : Request) : pool.Grows (pool.serve r) := by
  have hone : ∀ kind c, pool.Grows (Pool.internAs kind c pool).2 := fun kind c =>
    (interns_internAs (R := fun _ => False) kind c).grows h
  cases r with
  | intern c => exact (h.interned c).grows h
  | classNamed name => exact (interns_classNamed (R := fun _ => False) name).grows h
  | fieldRefFor field => exact (interns_fieldRefFor (R := fun _ => False) field).grows h
  | methodRefFor method => exact (interns_methodRefFor (R := fun _ => False) method).grows h
  | attributeFor format body => exact (interns_attributeFor format body).grows h
  | typeOf t => exact (interns_typeOf (R := fun _ => False) t).grows h
  | _ => exact hone _ _

/-- `pool'` comes about from `pool` by requests. -/
inductive Served (pool : Pool) : Pool → Prop
  | refl : Served pool pool
  | request {pool' : Pool} : Served pool pool' → (r : Request) → Served pool (pool'.serve r)

theorem Served.grows (h : pool.Served pool') (hs : pool.Sound) : pool.Grows pool' := by
  induction h with
  | refl => exact hs.grows
  | request _ r ih => exact ih.trans (ih.sound.serve r)

/-- A new pool, or the constants of a class that were read. -/
inductive Origin : Pool → Prop
  | empty : Origin Pool.empty
  | reopened {cs : Constants} {c c' : Cursor} : Constants.read c = .ok (cs, c') →
      Origin (ofConstants cs)

theorem Origin.sound (h : start.Origin) : start.Sound := by
  cases h with
  | empty => exact sound_empty
  | reopened hr =>
      obtain ⟨⟨hp, hrep⟩, -⟩ := (Constants.read_accepts _ _ _).1 hr
      exact sound_ofConstants hp hrep.stop

end Pool

end ClassForge
