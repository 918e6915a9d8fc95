import ClassForge.Proofs.Descriptor
import ClassForge.Proofs.Pool

/-!
# What an index leads to

The indices in code stand for classes, fields and methods. Each of them leads to the names that were
asked for, now and whatever is added to the pool later.
-/

namespace ClassForge

/-- A member by the texts that its constants hold. -/
structure Symbol where
  owner : String
  name : String
  descriptor : String
  deriving DecidableEq, Repr

def FieldRef.symbol (f : FieldRef) : Symbol := ⟨f.owner, f.name, f.type.render⟩

def MethodRef.symbol (m : MethodRef) : Symbol := ⟨m.owner, m.name, m.type.render⟩

def BaseType.vtype : BaseType → VType
  | float => .float
  | long => .long
  | double => .double
  | byte | char | int | short | boolean => .integer

namespace Constants

def member? (cs : Constants) (owner : Index .classInfo) (member : Index .nameAndType) :
    Option Symbol :=
  match cs.lookup? member with
  | some (.nameAndType name descriptor) =>
    return ⟨← cs.className? owner, ← cs.utf8? name, ← cs.utf8? descriptor⟩
  | _ => none

/-- The field of a field constant, with the class constant of its owner. -/
def field? (cs : Constants) (i : Index .fieldRef) : Option (Index .classInfo × Symbol) :=
  match cs.lookup? i with
  | some (.fieldRef owner member) => (cs.member? owner member).map (owner, ·)
  | _ => none

/-- The method of a method constant, and whether it belongs to an interface. -/
def method? (cs : Constants) (i : Index .methodRef) : Option (Symbol × Bool) :=
  match cs.lookup? i with
  | some (.methodRef owner member onInterface) => (cs.member? owner member).map (·, onInterface)
  | _ => none

/-- The class constant that stands for a name; of equal constants the first. -/
def classIndex? (cs : Constants) (name : String) : Option (Index .classInfo) := do
  let text ← cs.firstSlot? (.utf8 name)
  let i ← cs.firstSlot? (.classInfo ⟨UInt16.ofNat text⟩)
  return ⟨UInt16.ofNat i⟩

/-- The type that the verifier sees; arrays are named by their descriptor. -/
def vtype? (cs : Constants) : FieldType → Option VType
  | .base b => some b.vtype
  | .object name | .value name => (cs.classIndex? name).map .object
  | .array t => (cs.classIndex? (FieldType.array t).render).map .object

def vtypes? (cs : Constants) : List FieldType → Option (List VType)
  | [] => some []
  | t :: ts => return (← cs.vtype? t) :: (← cs.vtypes? ts)

end Constants

namespace Pool

variable {pool pool' : Pool} {c : Constant} {kind : IndexKind}

/-! ## Constants that refer to each other -/

/-- The class constant stands for the name. -/
def Named (pool : Pool) (name : String) (i : Index .classInfo) : Prop :=
  ∃ text : Index .utf8, pool.Holds (.utf8 name) text ∧ pool.Holds (.classInfo text) i

/-- The constants stand for the owner, and for the name and the descriptor of a member. -/
structure NamesMember (pool : Pool) (symbol : Symbol) (owner : Index .classInfo)
    (member : Index .nameAndType) : Prop where
  owner : pool.Named symbol.owner owner
  member : ∃ name descriptor : Index .utf8, pool.Holds (.utf8 symbol.name) name ∧
    pool.Holds (.utf8 symbol.descriptor) descriptor ∧
    pool.Holds (.nameAndType name descriptor) member

theorem Named.extends {name : String} {i : Index .classInfo} (h : pool.Named name i)
    (he : pool.Extends pool') : pool'.Named name i := by
  obtain ⟨text, ht, hi⟩ := h
  exact ⟨text, he.holds ht, he.holds hi⟩

theorem NamesMember.extends {symbol : Symbol} {owner : Index .classInfo}
    {member : Index .nameAndType} (h : pool.NamesMember symbol owner member)
    (he : pool.Extends pool') : pool'.NamesMember symbol owner member := by
  obtain ⟨name, descriptor, hn, hd, hm⟩ := h.member
  exact ⟨h.owner.extends he, name, descriptor, he.holds hn, he.holds hd, he.holds hm⟩

theorem Holds.utf8? {text : String} {i : Index .utf8} (h : pool.Holds (.utf8 text) i)
    (hs : pool.Sound) : pool.constants.utf8? i = some text := by
  simp only [Constants.utf8?, h.lookup? hs]

theorem Named.className? {name : String} {i : Index .classInfo} (h : pool.Named name i)
    (hs : pool.Sound) : pool.constants.className? i = some name := by
  obtain ⟨text, ht, hi⟩ := h
  simp only [Constants.className?, hi.lookup? hs, ht.utf8? hs]

theorem NamesMember.member? {symbol : Symbol} {owner : Index .classInfo}
    {member : Index .nameAndType} (h : pool.NamesMember symbol owner member) (hs : pool.Sound) :
    pool.constants.member? owner member = some symbol := by
  obtain ⟨name, descriptor, hn, hd, hm⟩ := h.member
  simp only [Constants.member?, hm.lookup? hs, h.owner.className? hs, hn.utf8? hs, hd.utf8? hs]
  rfl

theorem Named.classIndex? {name : String} {i : Index .classInfo} (h : pool.Named name i) :
    pool.constants.classIndex? name = some i := by
  obtain ⟨text, ht, hi⟩ := h
  have ht' : pool.constants.firstSlot? (.utf8 name) = some text.val.toNat := ht
  have hi' : pool.constants.firstSlot? (.classInfo ⟨text.val⟩) = some i.val.toNat := hi
  simp only [Constants.classIndex?, Option.bind_eq_bind, ht', Option.bind_some, UInt16.ofNat_toNat,
    hi']
  rfl

/-! ## What asking for them gives -/

theorem internAs_eq_ok {i : Index kind} (hs : pool.Sound)
    (h : internAs kind c pool = (.ok i, pool')) : pool.Grows pool' ∧ pool'.Holds c i := by
  obtain ⟨j, pool₁, hj, h⟩ := Interning.bind_eq_ok.1 h
  obtain ⟨rfl, rfl⟩ := Interning.pure_eq_ok.1 h
  have hi := hs.interned_of_eq hj
  exact ⟨hi.grows hs, hi.holds⟩

theorem classNamed_eq_ok {name : String} {i : Index .classInfo} (hs : pool.Sound)
    (h : classNamed name pool = (.ok i, pool')) : pool.Grows pool' ∧ pool'.Named name i := by
  obtain ⟨text, pool₁, ht, hi⟩ := Interning.bind_eq_ok.1 h
  obtain ⟨hg, ht⟩ := internAs_eq_ok hs ht
  obtain ⟨hg', hi⟩ := internAs_eq_ok hg.sound hi
  exact ⟨hg.trans hg', text, hg'.added.holds ht, hi⟩

/-- The steps that references to fields and to methods have in common. -/
theorem namesMember_of_eq_ok (symbol : Symbol) {owner : Index .classInfo}
    {name descriptor : Index .utf8} {member : Index .nameAndType} {pool₁ pool₂ pool₃ : Pool} (hs : pool.Sound)
    (ho : classNamed symbol.owner pool = (.ok owner, pool₁))
    (hn : utf8 symbol.name pool₁ = (.ok name, pool₂))
    (hd : utf8 symbol.descriptor pool₂ = (.ok descriptor, pool₃))
    (hm : nameAndType name descriptor pool₃ = (.ok member, pool')) :
    pool.Grows pool' ∧ pool'.NamesMember symbol owner member := by
  obtain ⟨g₁, ho⟩ := classNamed_eq_ok hs ho
  obtain ⟨g₂, hn⟩ := internAs_eq_ok g₁.sound hn
  obtain ⟨g₃, hd⟩ := internAs_eq_ok g₂.sound hd
  obtain ⟨g₄, hm⟩ := internAs_eq_ok g₃.sound hm
  have g₃₄ := g₃.trans g₄
  exact ⟨(g₁.trans g₂).trans g₃₄, ho.extends (g₂.trans g₃₄).added, name, descriptor,
    g₃₄.added.holds hn, g₄.added.holds hd, hm⟩

theorem fieldRefFor_eq_ok {field : FieldRef} {i : Index .fieldRef} (hs : pool.Sound)
    (h : fieldRefFor field pool = (.ok i, pool')) :
    pool.Grows pool' ∧ ∃ owner member, pool'.NamesMember field.symbol owner member ∧
      pool'.Holds (.fieldRef owner member) i := by
  simp only [fieldRefFor, Interning.bind_eq_ok] at h
  obtain ⟨owner, _, ho, name, _, hn, descriptor, _, hd, member, _, hm, hi⟩ := h
  obtain ⟨hg, hm⟩ := namesMember_of_eq_ok field.symbol hs ho hn hd hm
  obtain ⟨hg', hi⟩ := internAs_eq_ok hg.sound hi
  exact ⟨hg.trans hg', owner, member, hm.extends hg'.added, hi⟩

theorem methodRefFor_eq_ok {method : MethodRef} {i : Index .methodRef} (hs : pool.Sound)
    (h : methodRefFor method pool = (.ok i, pool')) :
    pool.Grows pool' ∧ ∃ owner member, pool'.NamesMember method.symbol owner member ∧
      pool'.Holds (.methodRef owner member method.onInterface) i := by
  simp only [methodRefFor, Interning.bind_eq_ok] at h
  obtain ⟨owner, _, ho, name, _, hn, descriptor, _, hd, member, _, hm, hi⟩ := h
  obtain ⟨hg, hm⟩ := namesMember_of_eq_ok method.symbol hs ho hn hd hm
  obtain ⟨hg', hi⟩ := internAs_eq_ok hg.sound hi
  exact ⟨hg.trans hg', owner, member, hm.extends hg'.added, hi⟩

/-! ## Types -/

theorem Extends.classIndex? {name : String} {i : Index .classInfo} (he : pool.Extends pool')
    (h : pool.constants.classIndex? name = some i) : pool'.constants.classIndex? name = some i := by
  obtain ⟨new, hnew, -⟩ := he
  simp only [Constants.classIndex?, Option.bind_eq_bind, Option.bind_eq_some_iff] at h ⊢
  obtain ⟨text, ht, j, hj, hi⟩ := h
  rw [hnew]
  exact ⟨text, Slots.firstSlot?_extend ht new, j, Slots.firstSlot?_extend hj new, hi⟩

theorem Extends.vtype? {t : FieldType} {v : VType} (he : pool.Extends pool')
    (h : pool.constants.vtype? t = some v) : pool'.constants.vtype? t = some v := by
  cases t with
  | base b => exact h
  | object name | value name | array t =>
      obtain ⟨i, hi, hv⟩ := Option.map_eq_some_iff.1 h
      exact Option.map_eq_some_iff.2 ⟨i, he.classIndex? hi, hv⟩

theorem Extends.vtypes? {ts : List FieldType} {vs : List VType} (he : pool.Extends pool')
    (h : pool.constants.vtypes? ts = some vs) : pool'.constants.vtypes? ts = some vs := by
  induction ts generalizing vs with
  | nil => exact h
  | cons t ts ih =>
      simp only [Constants.vtypes?, Option.bind_eq_bind, Option.bind_eq_some_iff] at h ⊢
      obtain ⟨v, hv, vs', hvs, he'⟩ := h
      exact ⟨v, he.vtype? hv, vs', ih hvs, he'⟩

theorem typeOf_eq_ok {t : FieldType} {v : VType} (hs : pool.Sound)
    (h : typeOf t pool = (.ok v, pool')) :
    pool.Grows pool' ∧ pool'.constants.vtype? t = some v := by
  -- a reference is an object of the class that its name stands for
  have hclass : ∀ name, (do return VType.object (← classNamed name) : Interning VType) pool =
      (.ok v, pool') → pool.Grows pool' ∧ (pool'.constants.classIndex? name).map .object = some v := by
    intro name h
    obtain ⟨i, pool₁, hi, h⟩ := Interning.bind_eq_ok.1 h
    obtain ⟨rfl, rfl⟩ := Interning.pure_eq_ok.1 h
    obtain ⟨hg, hi⟩ := classNamed_eq_ok hs hi
    exact ⟨hg, by rw [hi.classIndex?]; rfl⟩
  cases t with
  | base b =>
      cases b <;>
        (obtain ⟨rfl, rfl⟩ := Interning.pure_eq_ok.1 h
         exact ⟨hs.grows, rfl⟩)
  | object name => exact hclass name h
  | value name => exact hclass name h
  | array t => exact hclass _ h

theorem mapM_typeOf_eq_ok {ts : List FieldType} {vs : List VType} (hs : pool.Sound)
    (h : ts.mapM typeOf pool = (.ok vs, pool')) :
    pool.Grows pool' ∧ pool'.constants.vtypes? ts = some vs := by
  induction ts generalizing pool vs with
  | nil =>
      rw [List.mapM_nil] at h
      obtain ⟨rfl, rfl⟩ := Interning.pure_eq_ok.1 h
      exact ⟨hs.grows, rfl⟩
  | cons t ts ih =>
      rw [List.mapM_cons] at h
      obtain ⟨v, pool₁, hv, h⟩ := Interning.bind_eq_ok.1 h
      obtain ⟨vs', pool₂, hvs, h⟩ := Interning.bind_eq_ok.1 h
      obtain ⟨rfl, rfl⟩ := Interning.pure_eq_ok.1 h
      obtain ⟨hg, hv⟩ := typeOf_eq_ok hs hv
      obtain ⟨hg', hvs⟩ := ih hg.sound hvs
      refine ⟨hg.trans hg', ?_⟩
      simp only [Constants.vtypes?, hg'.added.vtype? hv, hvs]
      rfl

theorem typeOf?_eq_ok {t : Option FieldType} {v : Option VType} (hs : pool.Sound)
    (h : typeOf? t pool = (.ok v, pool')) :
    pool.Grows pool' ∧ pool'.constants.vtypes? t.toList = some v.toList := by
  cases t with
  | none =>
      obtain ⟨rfl, rfl⟩ := Interning.pure_eq_ok.1 h
      exact ⟨hs.grows, rfl⟩
  | some t =>
      obtain ⟨v', pool₁, hv, h⟩ := Interning.bind_eq_ok.1 h
      obtain ⟨rfl, rfl⟩ := Interning.pure_eq_ok.1 h
      obtain ⟨hg, hv⟩ := typeOf_eq_ok hs hv
      refine ⟨hg, ?_⟩
      simp only [Option.toList_some, Constants.vtypes?, hv]
      rfl

end Pool

end ClassForge
