import ClassForge.Proofs.Assembly.Draft
import ClassForge.Proofs.Resolution

/-!
# Pools whose references are closed

Constants refer to each other by index. In a tidy pool every such index is smaller than that of the
constant itself and leads to an entry of the kind that it promises, and names can be read. What is asked
for by name leaves a pool tidy, also where it stops halfway.
-/

namespace ClassForge

/-! ## References -/

/-- The entries that an index of the kind promises to lead to. Text may have unpaired surrogates. -/
def IndexKind.Admits : IndexKind → Constant → Prop
  | .any, _ => True
  | .utf8, .utf8 _ => True
  | .utf8, .utf16 _ => True
  | .string, .string _ => True
  | .nameAndType, .nameAndType _ _ => True
  | .classInfo, .classInfo _ => True
  | .fieldRef, .fieldRef _ _ => True
  | .methodRef, .methodRef _ _ _ => True
  | .invokeDynamic, .invokeDynamic _ _ => True
  | _, _ => False

/-- The index is below `n` and leads to an entry of its kind. -/
def Constants.Leads (cs : Constants) (n : Nat) {kind : IndexKind} (i : Index kind) : Prop :=
  i.val.toNat < n ∧ ∃ c, cs.lookup? i = some c ∧ kind.Admits c

/-- The indices in a constant are below `n` and lead to entries of their kinds. -/
def Constant.Refers (cs : Constants) (n : Nat) : Constant → Prop
  | string i | classInfo i | methodType i | moduleInfo i | packageInfo i => cs.Leads n i
  | nameAndType name descriptor => cs.Leads n name ∧ cs.Leads n descriptor
  | fieldRef owner member | methodRef owner member _ => cs.Leads n owner ∧ cs.Leads n member
  | methodHandle _ member => cs.Leads n member
  | dynamic _ member | invokeDynamic _ member => cs.Leads n member
  | utf8 _ | utf16 _ | integer _ | float _ | long _ | double _ => True

/-- Every constant refers to constants before it. -/
def Constants.Closed (cs : Constants) : Prop := ∀ n c, cs.get? n = some c → c.Refers cs n

def Constants.Reads (cs : Constants) (i : Index .utf8) : Prop := ∃ text, cs.lookup? i = some (.utf8 text)

/-- Names and descriptors are strings. Only the text of a string constant need not be one. -/
def Constant.Legible (cs : Constants) : Constant → Prop
  | classInfo i | methodType i | moduleInfo i | packageInfo i => cs.Reads i
  | nameAndType name descriptor => cs.Reads name ∧ cs.Reads descriptor
  | _ => True

def Constants.Legible (cs : Constants) : Prop := ∀ n c, cs.get? n = some c → c.Legible cs

/-- Only units that are no string are kept as units. -/
def Constant.Settled : Constant → Prop
  | utf16 units => ¬∃ s, Text.Utf16.encode s = units
  | _ => True

theorem Constant.settled_ofUnits (units : List UInt16) : (Constant.ofUnits units).Settled := by
  by_cases h : ∃ s, Text.Utf16.encode s = units
  · obtain ⟨s, rfl⟩ := h
    rw [ofUnits_encode]
    trivial
  · rw [ofUnits_of_not_text h]
    exact h

/-- A constant that may stand at slot `n`. -/
structure Constant.InOrder (cs : Constants) (n : Nat) (c : Constant) : Prop where
  refers : c.Refers cs n
  legible : c.Legible cs
  settled : c.Settled

theorem Constant.inOrder_ofUnits (cs : Constants) (n : Nat) (units : List UInt16) :
    (Constant.ofUnits units).InOrder cs n := by
  refine ⟨?_, ?_, settled_ofUnits units⟩
  · unfold ofUnits
    split <;> trivial
  · unfold ofUnits
    split <;> trivial

section

variable {cs cs' : Constants} {n : Nat} {c : Constant}

theorem Constant.Refers.mono (h : c.Refers cs n)
    (hl : ∀ (kind : IndexKind) (i : Index kind) d, cs.lookup? i = some d → cs'.lookup? i = some d) :
    c.Refers cs' n := by
  have hleads : ∀ {kind : IndexKind} {i : Index kind}, cs.Leads n i → cs'.Leads n i := by
    intro kind i hi
    obtain ⟨hlt, d, hd, hk⟩ := hi
    exact ⟨hlt, d, hl kind i d hd, hk⟩
  cases c with
  | classInfo _ | string _ | methodType _ | moduleInfo _ | packageInfo _ | methodHandle _ _
  | dynamic _ _ | invokeDynamic _ _ => exact hleads h
  | nameAndType _ _ | fieldRef _ _ | methodRef _ _ _ => exact ⟨hleads h.1, hleads h.2⟩
  | _ => trivial

theorem Constant.Legible.mono (h : c.Legible cs)
    (hl : ∀ (kind : IndexKind) (i : Index kind) d, cs.lookup? i = some d → cs'.lookup? i = some d) :
    c.Legible cs' := by
  have hreads : ∀ {i : Index .utf8}, cs.Reads i → cs'.Reads i := by
    intro i hi
    obtain ⟨text, ht⟩ := hi
    exact ⟨text, hl .utf8 i _ ht⟩
  cases c with
  | classInfo _ | methodType _ | moduleInfo _ | packageInfo _ => exact hreads h
  | nameAndType _ _ => exact ⟨hreads h.1, hreads h.2⟩
  | _ => trivial

theorem Constant.InOrder.mono (h : c.InOrder cs n)
    (hl : ∀ (kind : IndexKind) (i : Index kind) d, cs.lookup? i = some d → cs'.lookup? i = some d) :
    c.InOrder cs' n :=
  ⟨h.refers.mono hl, h.legible.mono hl, h.settled⟩

end

/-! ## Tidy pools -/

namespace Pool

variable {pool pool' : Pool} {c : Constant} {kind : IndexKind}

structure Tidy (pool : Pool) : Prop where
  sound : pool.Sound
  start : pool.constants.start = 1
  inOrder : ∀ n c, pool.constants.get? n = some c → c.InOrder pool.constants n

theorem tidy_empty : Pool.empty.Tidy := by
  refine ⟨sound_empty, rfl, fun n c h => ?_⟩
  cases h

theorem Tidy.closed (h : pool.Tidy) : pool.constants.Closed := fun n c hc => (h.inOrder n c hc).refers

theorem Tidy.legible (h : pool.Tidy) : pool.constants.Legible := fun n c hc => (h.inOrder n c hc).legible

theorem Tidy.settled (h : pool.Tidy) (hc : c ∈ pool.constants.elements) : c.Settled := by
  obtain ⟨n, hn⟩ := Slots.exists_firstSlot? hc
  exact (h.inOrder n c (h.sound.ordered.get?_of_firstSlot? hn)).settled

theorem Holds.leads {i : Index kind} (h : pool.Holds c i) (hs : pool.Sound) (hk : kind.Admits c) :
    pool.constants.Leads pool.size i :=
  ⟨hs.ordered.lt_stop (h.lookup? hs), c, h.lookup? hs, hk⟩

theorem Holds.reads {text : String} {i : Index .utf8} (h : pool.Holds (.utf8 text) i)
    (hs : pool.Sound) : pool.constants.Reads i :=
  ⟨text, h.lookup? hs⟩

theorem Interned.tidy {r : Except Error (Index .any)} (h : Interned pool c r pool') (ht : pool.Tidy)
    (hc : c.InOrder pool.constants pool.size) : pool'.Tidy := by
  have hsound := h.sound ht.sound
  have hext := h.extends
  cases h with
  | found _ => exact ht
  | full _ _ => exact ht
  | added _ _ _ hcs _ =>
      have hkept : ∀ (kind : IndexKind) (i : Index kind) d, pool.constants.lookup? i = some d →
          pool'.constants.lookup? i = some d := fun _ _ _ hd => hext.lookup? ht.sound hd
      refine ⟨hsound, by rw [hcs]; exact ht.start, fun n d hd => ?_⟩
      have hmem := hsound.ordered.get?_eq_some_iff.1 hd
      rw [hcs] at hmem
      rcases List.mem_cons.1 hmem with he | hmem
      · cases he
        exact hc.mono hkept
      · exact (ht.inOrder n d (ht.sound.ordered.get?_eq_some_iff.2 hmem)).mono hkept

end Pool

/-! ## Programs that leave a pool tidy -/

namespace Interning

variable {α β : Type} {x : Interning α} {Q : α → Pool → Prop} {pool pool' : Pool}

/-- From a tidy pool the program leaves a tidy one, whether it succeeds or not; an answer is as `Q`
says. -/
def Tidies (x : Interning α) (Q : α → Pool → Prop) (pool : Pool) : Prop :=
  pool.Tidy → ∀ r pool', x pool = (r, pool') →
    pool'.Tidy ∧ pool.Extends pool' ∧ ∀ a, r = .ok a → Q a pool'

theorem Tidies.mono {R : α → Pool → Prop} (h : Tidies x Q pool) (hqr : ∀ a pool', Q a pool' → R a pool') :
    Tidies x R pool := by
  intro ht r pool' hx
  obtain ⟨ht', he, ha⟩ := h ht r pool' hx
  exact ⟨ht', he, fun a hr => hqr a pool' (ha a hr)⟩

theorem tidies_ofExcept (r : Except Error α) (hr : ∀ a, r = .ok a → Q a pool) :
    Tidies (ofExcept r) Q pool := by
  intro ht r' pool' hx
  cases hx
  exact ⟨ht, .refl pool, hr⟩

theorem tidies_pure {a : α} (ha : Q a pool) : Tidies (pure a) Q pool :=
  tidies_ofExcept (.ok a) fun b hb => by cases hb; exact ha

theorem Tidies.bind {f : α → Interning β} {R : β → Pool → Prop} (hx : Tidies x Q pool)
    (hf : ∀ a pool', pool.Extends pool' → pool'.Tidy → Q a pool' → Tidies (f a) R pool') :
    Tidies (x >>= f) R pool := by
  intro ht r pool' h
  rcases bind_cases h with ⟨e, he, rfl⟩ | ⟨a, pool₁, ha, h⟩
  · obtain ⟨ht', hext, -⟩ := hx ht _ _ he
    exact ⟨ht', hext, fun _ h => by cases h⟩
  · obtain ⟨ht₁, he₁, hq⟩ := hx ht _ _ ha
    obtain ⟨ht', he', hr⟩ := hf a pool₁ he₁ ht₁ (hq a rfl) ht₁ r pool' h
    exact ⟨ht', he₁.trans he', hr⟩

/-- Answers to a list of questions, when what is known of an answer stays known. -/
theorem tidies_mapM {γ : Type} {f : γ → Interning α} {R : γ → α → Pool → Prop}
    (hf : ∀ c pool, Tidies (f c) (R c) pool)
    (hr : ∀ c a pool pool', pool.Extends pool' → R c a pool → R c a pool') (cs : List γ) (pool : Pool) :
    Tidies (cs.mapM f) (fun as pool' => List.Forall₂ (fun c a => R c a pool') cs as) pool := by
  induction cs generalizing pool with
  | nil =>
      rw [List.mapM_nil]
      exact tidies_pure .nil
  | cons c cs ih =>
      rw [List.mapM_cons]
      refine (hf c pool).bind fun a pool₁ _ _ ha => (ih pool₁).bind fun as pool₂ he _ has => ?_
      exact tidies_pure (.cons (hr c a pool₁ pool₂ he ha) has)

end Interning

namespace Pool

open Interning

variable {pool : Pool} {c : Constant}

theorem tidies_intern (hc : c.InOrder pool.constants pool.size) :
    Tidies (intern c) (fun i pool' => pool'.Holds c i) pool := by
  intro ht r pool' hx
  have hi := ht.sound.interned_of_eq hx
  refine ⟨hi.tidy ht hc, hi.extends, fun i he => ?_⟩
  cases he
  exact hi.holds

theorem tidies_internAs (kind : IndexKind) (hc : c.InOrder pool.constants pool.size) :
    Tidies (internAs kind c) (fun i pool' => pool'.Holds c i) pool :=
  (tidies_intern hc).bind fun _ _ _ _ hi => tidies_pure hi

theorem tidies_utf8 (text : String) (pool : Pool) :
    Tidies (utf8 text) (fun i pool' => pool'.Holds (.utf8 text) i) pool :=
  tidies_internAs .utf8 ⟨trivial, trivial, trivial⟩

theorem tidies_classNamed (name : String) (pool : Pool) :
    Tidies (classNamed name) (fun i pool' => pool'.Named name i) pool := by
  refine (tidies_utf8 name pool).bind fun text pool₁ _ ht hn => ?_
  have horder : (Constant.classInfo text).InOrder pool₁.constants pool₁.size :=
    ⟨hn.leads ht.sound trivial, hn.reads ht.sound, trivial⟩
  intro _ r pool₂ hx
  obtain ⟨ht₂, he, hq⟩ := tidies_internAs .classInfo horder ht r pool₂ hx
  exact ⟨ht₂, he, fun i hi => ⟨text, he.holds hn, hq i hi⟩⟩

/-- The name and the descriptor of a member, and what is done with their constants. -/
theorem tidies_texts {α : Type} {k : Index .utf8 → Index .utf8 → Interning α} {Q : α → Pool → Prop}
    (name descriptor : String)
    (hk : ∀ n d pool', pool.Extends pool' → pool'.Tidy → pool'.Holds (.utf8 name) n →
      pool'.Holds (.utf8 descriptor) d → Tidies (k n d) Q pool') :
    Tidies (do
      let n ← utf8 name
      let d ← utf8 descriptor
      k n d) Q pool := by
  refine (tidies_utf8 name pool).bind fun n pool₁ he₁ _ hn => ?_
  refine (tidies_utf8 descriptor pool₁).bind fun d pool₂ he₂ ht hd => ?_
  exact hk n d pool₂ (he₁.trans he₂) ht (he₂.holds hn) hd

/-- The steps that references to fields and to methods have in common. -/
theorem tidies_member {α : Type} {k : Index .classInfo → Index .nameAndType → Interning α}
    {Q : α → Pool → Prop} (owner name descriptor : String)
    (hk : ∀ i j pool', pool'.Tidy → pool'.constants.Leads pool'.size i →
      pool'.constants.Leads pool'.size j → Tidies (k i j) Q pool') :
    Tidies (do
      let i ← classNamed owner
      let n ← utf8 name
      let d ← utf8 descriptor
      let j ← nameAndType n d
      k i j) Q pool := by
  refine (tidies_classNamed owner pool).bind fun i pool₁ _ _ hi => ?_
  refine tidies_texts name descriptor fun n d pool₂ he₂ ht₂ hn hd => ?_
  have horder : (Constant.nameAndType n d).InOrder pool₂.constants pool₂.size :=
    ⟨⟨hn.leads ht₂.sound trivial, hd.leads ht₂.sound trivial⟩,
      ⟨hn.reads ht₂.sound, hd.reads ht₂.sound⟩, trivial⟩
  refine (tidies_internAs .nameAndType horder).bind fun j pool₃ he₃ ht₃ hj => ?_
  obtain ⟨_, _, hi⟩ := hi.extends (he₂.trans he₃)
  exact hk i j pool₃ ht₃ (hi.leads ht₃.sound trivial) (hj.leads ht₃.sound trivial)

theorem tidies_fieldRefFor (field : FieldRef) (pool : Pool) :
    Tidies (fieldRefFor field) (fun _ _ => True) pool := by
  refine tidies_member _ _ _ fun i j pool' _ hi hj => ?_
  have horder : (Constant.fieldRef i j).InOrder pool'.constants pool'.size := ⟨⟨hi, hj⟩, trivial, trivial⟩
  exact (tidies_internAs .fieldRef horder).mono fun _ _ _ => trivial

theorem tidies_methodRefFor (method : MethodRef) (pool : Pool) :
    Tidies (methodRefFor method) (fun _ _ => True) pool := by
  refine tidies_member _ _ _ fun i j pool' _ hi hj => ?_
  have horder : (Constant.methodRef i j method.onInterface).InOrder pool'.constants pool'.size :=
    ⟨⟨hi, hj⟩, trivial, trivial⟩
  exact (tidies_internAs .methodRef horder).mono fun _ _ _ => trivial

theorem tidies_typeOf (t : FieldType) (pool : Pool) : Tidies (typeOf t) (fun _ _ => True) pool := by
  cases t with
  | base b => cases b <;> exact tidies_pure trivial
  | object name => exact (tidies_classNamed name pool).bind fun _ _ _ _ _ => tidies_pure trivial
  | value name => exact (tidies_classNamed name pool).bind fun _ _ _ _ _ => tidies_pure trivial
  | array t => exact (tidies_classNamed _ pool).bind fun _ _ _ _ _ => tidies_pure trivial

theorem tidies_typeOf? (t : Option FieldType) (pool : Pool) :
    Tidies (typeOf? t) (fun _ _ => True) pool := by
  cases t with
  | none => exact tidies_pure trivial
  | some t => exact (tidies_typeOf t pool).bind fun _ _ _ _ _ => tidies_pure trivial

theorem tidies_types (ts : List FieldType) (pool : Pool) :
    Tidies (ts.mapM typeOf) (fun _ _ => True) pool :=
  (tidies_mapM tidies_typeOf (fun _ _ _ _ _ _ => trivial) ts pool).mono fun _ _ _ => trivial

/-- An attribute has the name of its kind, and its body as the kind writes it. -/
theorem tidies_attributeFor {α : Type} (format : BodyFormat α) (content : α) (pool : Pool) :
    Tidies (attributeFor format content)
      (fun a pool' => pool'.Holds (.utf8 format.name) a.name ∧ format.write content = .ok a.info) pool := by
  refine (tidies_utf8 format.name pool).bind fun name pool₁ _ _ hn => ?_
  cases hw : format.write content with
  | error e => exact tidies_ofExcept (.error _) fun _ h => by cases h
  | ok info => exact tidies_pure ⟨hn, rfl⟩

/-- The constant that is handed in, or made of the indices that are handed in, is in order; what is given
by name always is. -/
def Request.Honest (pool : Pool) : Request → Prop
  | .intern c => c.InOrder pool.constants pool.size
  | .classInfo name => (Constant.classInfo name).InOrder pool.constants pool.size
  | .string text => (Constant.string text).InOrder pool.constants pool.size
  | .nameAndType name descriptor =>
    (Constant.nameAndType name descriptor).InOrder pool.constants pool.size
  | .fieldRef owner member => (Constant.fieldRef owner member).InOrder pool.constants pool.size
  | .methodRef owner member onInterface =>
    (Constant.methodRef owner member onInterface).InOrder pool.constants pool.size
  | .invokeDynamic bootstrap member =>
    (Constant.invokeDynamic bootstrap member).InOrder pool.constants pool.size
  | .utf8 _ | .utf16 _ | .classNamed _ | .fieldRefFor _ | .methodRefFor _ | .attributeFor _ _
  | .typeOf _ => True

theorem Tidy.serve {r : Request} (ht : pool.Tidy) (hr : r.Honest pool) :
    (pool.serve r).Tidy ∧ pool.Extends (pool.serve r) := by
  have hrun : ∀ {α : Type} {x : Interning α} {Q : α → Pool → Prop}, Tidies x Q pool →
      (x pool).2.Tidy ∧ pool.Extends (x pool).2 := fun h =>
    ⟨(h ht _ _ rfl).1, (h ht _ _ rfl).2.1⟩
  cases r with
  | intern c => exact hrun (tidies_intern hr)
  | utf8 text => exact hrun (tidies_utf8 text pool)
  | utf16 units => exact hrun (tidies_internAs .utf8 (Constant.inOrder_ofUnits _ _ units))
  | classInfo name => exact hrun (tidies_internAs .classInfo hr)
  | classNamed name => exact hrun (tidies_classNamed name pool)
  | string text => exact hrun (tidies_internAs .string hr)
  | nameAndType name descriptor => exact hrun (tidies_internAs .nameAndType hr)
  | fieldRef owner member => exact hrun (tidies_internAs .fieldRef hr)
  | methodRef owner member onInterface => exact hrun (tidies_internAs .methodRef hr)
  | invokeDynamic bootstrap member => exact hrun (tidies_internAs .invokeDynamic hr)
  | fieldRefFor field => exact hrun (tidies_fieldRefFor field pool)
  | methodRefFor method => exact hrun (tidies_methodRefFor method pool)
  | attributeFor format content => exact hrun (tidies_attributeFor format content pool)
  | typeOf t => exact hrun (tidies_typeOf t pool)

end Pool

/-! ## Methods -/

open Interning

theorem Block.tidies_intInstruction (value : Int32) (pool : Pool) :
    Tidies (Block.intInstruction value) (fun _ _ => True) pool := by
  fun_cases Block.intInstruction value with
  | case1 | case2 | case3 => exact tidies_pure trivial
  | case4 =>
      refine (Pool.tidies_intern (c := .integer value) ⟨trivial, trivial, trivial⟩).bind fun i _ _ _ _ => ?_
      split <;> exact tidies_pure trivial

theorem Block.tidies_apply (b : Block) (command : Command) (pool : Pool) :
    Tidies (b.apply command) (fun _ _ => True) pool := by
  have hcheck : ∀ {α : Type} (r : Except Error α) (pool : Pool),
      Tidies (Interning.ofExcept r) (fun _ _ => True) pool := fun r _ =>
    tidies_ofExcept r fun _ _ => trivial
  have hsilent : ∀ {x : Interning Block}, Tidies x (fun _ _ => True) pool →
      Tidies (silent x) (fun _ _ => True) pool := fun h => h.bind fun _ _ _ _ _ => tidies_pure trivial
  cases command with
  | reserve t => exact (hcheck _ _).bind fun _ _ _ _ _ => tidies_pure trivial
  | pushInt value =>
      exact hsilent <| (hcheck _ _).bind fun _ _ _ _ _ =>
        (tidies_intInstruction value _).bind fun _ _ _ _ _ => hcheck _ _
  | accessField access field =>
      exact hsilent <| (hcheck _ _).bind fun _ _ _ _ _ =>
        (Pool.tidies_fieldRefFor field _).bind fun _ _ _ _ _ =>
          (Pool.tidies_classNamed _ _).bind fun _ _ _ _ _ =>
            (Pool.tidies_typeOf _ _).bind fun _ _ _ _ _ => hcheck _ _
  | defaultValue name =>
      exact hsilent <| (hcheck _ _).bind fun _ _ _ _ _ =>
        (Pool.tidies_classNamed name _).bind fun _ _ _ _ _ => hcheck _ _
  | invokeStatic method =>
      exact hsilent <| (hcheck _ _).bind fun _ _ _ _ _ =>
        (Pool.tidies_methodRefFor method _).bind fun _ _ _ _ _ =>
          (Pool.tidies_types _ _).bind fun _ _ _ _ _ =>
            (Pool.tidies_typeOf? _ _).bind fun _ _ _ _ _ => hcheck _ _
  | _ => exact hsilent (hcheck _ _)

namespace MethodDraft

theorem tidies_apply (m : MethodDraft) (id : BlockId) (command : Command) (pool : Pool) :
    Tidies (m.apply id command) (fun _ _ => True) pool :=
  (tidies_ofExcept (m.block? id) fun _ _ => trivial).bind fun b pool₁ _ _ (_ : True) =>
    (b.tidies_apply command pool₁).bind fun _ _ _ _ _ => tidies_pure trivial

theorem tidies_ofType (type : MethodType) (receiver : Option (Index .classInfo)) (pool : Pool) :
    Tidies (ofType type receiver) (fun _ _ => True) pool :=
  (Pool.tidies_types type.parameters pool).bind fun _ pool₁ _ _ _ =>
    (Pool.tidies_typeOf? type.returns pool₁).bind fun _ _ _ _ _ => tidies_pure trivial

/-- The attribute of a finished method is named for code, and those inside it for stack map tables. -/
def Finished (pool : Pool) (a : Attribute) : Prop :=
  pool.Holds (.utf8 "Code") a.name ∧ ∃ code : Code, a.info = code.write ∧
    ∀ t ∈ code.attributes, pool.Holds (.utf8 "StackMapTable") t.name

theorem tidies_tableAttributes (frames : StackMapTable) (pool : Pool) :
    Tidies (tableAttributes frames)
      (fun as pool' => ∀ t ∈ as, pool'.Holds (.utf8 "StackMapTable") t.name) pool := by
  unfold tableAttributes
  split
  · exact tidies_pure (by simp)
  · refine (Pool.tidies_attributeFor StackMapTable.format frames pool).bind fun a _ _ _ ha => ?_
    refine tidies_pure fun t ht => ?_
    obtain rfl := List.mem_singleton.1 ht
    exact ha.1

theorem tidies_finish (m : MethodDraft) (pool : Pool) :
    Tidies m.finish (fun r pool' => ∀ a ∈ r.1, Finished pool' a) pool := by
  unfold finish
  split
  · exact tidies_ofExcept (.error _) fun _ h => by cases h
  · refine (tidies_ofExcept m.body (Q := fun _ _ => True) fun _ _ => trivial).bind fun body pool₁ _ _ _ => ?_
    refine (tidies_tableAttributes body.frames pool₁).bind fun table pool₂ _ _ ht => ?_
    refine (tidies_ofExcept (checkMaxima body.maxima)
      (Q := fun _ pool' => ∀ t ∈ table, pool'.Holds (.utf8 "StackMapTable") t.name)
      fun _ _ => ht).bind fun _ pool₃ _ _ ht => ?_
    refine (Pool.tidies_attributeFor Code.format (body.toCode table) pool₃).bind fun a pool₄ he _ ha => ?_
    refine tidies_pure fun a' ha' => ?_
    obtain rfl := List.mem_singleton.1 ha'
    exact ⟨ha.1, body.toCode table, (Except.ok.inj ha.2).symm, fun t htt => he.holds (ht t htt)⟩

end MethodDraft

end ClassForge
