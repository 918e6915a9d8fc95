import ClassForge.Proofs.Closure
import ClassForge.Proofs.Editing

/-!
# Classes under construction

The calls that make up a class, mixed in any order with work on its methods and requests to its pool.
What a class was asked for is kept in a plan. The main result is `ClassDraft.meets_plan`: the class that
comes out has the names of its plan, and its constants are closed.
-/

namespace ClassForge

/-- A member as it was asked for. -/
structure Declaration (scope : Scope) where
  flags : Flags scope
  name : String
  descriptor : String
  attributes : List Attribute

/-- What a class was asked for, in the order of the calls. -/
structure Plan where
  version : Version
  flags : Flags .ofClass
  thisName : String
  superName : String
  interfaces : List String
  fields : List (Declaration .ofField)
  methods : List (Declaration .ofMethod)
  /-- The kinds of the attributes of the class. -/
  attributes : List String
  /-- The attributes that the pool gave out, with their kinds. -/
  issued : List (String × Attribute)
  /-- The attributes that finished methods gave out. -/
  bodies : List Attribute

/-- The member has the flags and attributes that were asked for, and its indices lead to the texts. -/
structure Declaration.Names {scope : Scope} (cs : Constants) (x : Declaration scope) (m : Member scope) :
    Prop where
  flags : m.flags = x.flags
  name : cs.utf8? m.name = some x.name
  descriptor : cs.utf8? m.descriptor = some x.descriptor
  attributes : m.attributes = x.attributes

/-- The class is what the plan asks for. Its constants refer to constants before them, and names among
them can be read. -/
structure Plan.Met (p : Plan) (c : ClassFile) : Prop where
  version : c.version = p.version
  flags : c.flags = p.flags
  thisName : c.constants.className? c.thisClass = some p.thisName
  superName : c.constants.className? c.superClass = some p.superName
  interfaces : List.Forall₂ (fun name i => c.constants.className? i = some name) p.interfaces c.interfaces
  fields : List.Forall₂ (Declaration.Names c.constants) p.fields c.fields
  methods : List.Forall₂ (Declaration.Names c.constants) p.methods c.methods
  attributes : List.Forall₂ (fun kind a => a.nameIn c.constants = some kind) p.attributes c.attributes
  issued : ∀ x ∈ p.issued, x.2.nameIn c.constants = some x.1
  bodies : ∀ a ∈ p.bodies, a.nameIn c.constants = some "Code" ∧ ∃ code : Code, a.info = code.write ∧
    ∀ t ∈ code.attributes, t.nameIn c.constants = some "StackMapTable"
  closed : c.constants.Closed
  legible : c.constants.Legible

namespace ClassDraft

/-- A call that adds to a class. -/
inductive Call : Type 1 where
  | field (flags : Flags .ofField) (name descriptor : String)
  | method (flags : Flags .ofMethod) (name descriptor : String) (attributes : List Attribute)
  | attach {α : Type} (format : BodyFormat α) (content : α)

def Call.run : Call → Editing ClassDraft Unit
  | field flags name descriptor => declareField flags name descriptor
  | method flags name descriptor attributes => declareMethod flags name descriptor attributes
  | attach format content => ClassDraft.attach format content

end ClassDraft

def Plan.record (p : Plan) : ClassDraft.Call → Plan
  | .field flags name descriptor => { p with fields := p.fields ++ [⟨flags, name, descriptor, []⟩] }
  | .method flags name descriptor attributes =>
    { p with methods := p.methods ++ [⟨flags, name, descriptor, attributes⟩] }
  | .attach format _ => { p with attributes := p.attributes ++ [format.name] }

namespace ClassDraft

open Editing Interning

/-- A class comes about with its pool: by calls, of which some are refused, by requests to the pool, and by
work on methods, which may come from anywhere. -/
inductive Built : Plan → ClassDraft → Pool → Prop
  | start {flags thisName superName interfaces d pool} :
      start flags thisName superName interfaces .empty = (.ok d, pool) →
      Built ⟨.java8, flags, thisName, superName, interfaces, [], [], [], [], []⟩ d pool
  | version {p d pool} (version : Version) : Built p d pool →
      Built { p with version } (d.setVersion version) pool
  | call {p d pool d' pool'} (call : Call) : Built p d pool →
      call.run (d, pool) = (.ok (), (d', pool')) → Built (p.record call) d' pool'
  | refused {p d pool e d' pool'} (call : Call) : Built p d pool →
      call.run (d, pool) = (.error e, (d', pool')) → Built p d' pool'
  | request {p d pool} {r : Pool.Request} : Built p d pool → r.Honest pool → Built p d (pool.serve r)
  | issue {p d pool α a pool'} (format : BodyFormat α) (content : α) : Built p d pool →
      Pool.attributeFor format content pool = (.ok a, pool') →
      Built { p with issued := (format.name, a) :: p.issued } d pool'
  | method {p d pool} (isStatic : Bool) (type : MethodType) : Built p d pool →
      Built p d (d.method isStatic type pool).2
  | command {p d pool m} (id : BlockId) (command : Command) : Built p d pool →
      MethodDraft.Reachable m →
      Built p d (MethodDraft.onBlock id (Block.perform command) (m, pool)).2.2
  | finished {p d pool m attributes m' pool'} : Built p d pool →
      MethodDraft.complete (m, pool) = (.ok attributes, (m', pool')) →
      Built { p with bodies := attributes ++ p.bodies } d pool'
  | unfinished {p d pool m e m' pool'} : Built p d pool →
      MethodDraft.complete (m, pool) = (.error e, (m', pool')) → Built p d pool'

variable {p : Plan} {d d' : ClassDraft} {pool pool' : Pool}

/-! ## What one call does -/

theorem tidies_start (flags : Flags .ofClass) (thisName superName : String) (interfaces : List String)
    (pool : Pool) :
    Tidies (start flags thisName superName interfaces)
      (fun d pool' => ∃ this super is, d = ⟨.java8, flags, this, super, is, [], [], []⟩ ∧
        pool'.Named thisName this ∧ pool'.Named superName super ∧
        List.Forall₂ (fun name i => pool'.Named name i) interfaces is) pool := by
  refine (Pool.tidies_classNamed thisName pool).bind fun this pool₁ _ _ hthis => ?_
  refine (Pool.tidies_classNamed superName pool₁).bind fun super pool₂ he₂ _ hsuper => ?_
  refine (tidies_mapM Pool.tidies_classNamed (fun _ _ _ _ he h => h.extends he) interfaces pool₂).bind
    fun is pool₃ he₃ _ his => ?_
  exact tidies_pure ⟨this, super, is, rfl, hthis.extends (he₂.trans he₃), hsuper.extends he₃, his⟩

/-- The value that a call gives, instead of changing the class in place. -/
def Call.apply (d : ClassDraft) : Call → Interning ClassDraft
  | field flags name descriptor => d.addField flags name descriptor
  | method flags name descriptor attributes => d.addMethod flags name descriptor attributes
  | attach format content => d.addAttribute format content

theorem Call.mirrors (call : Call) (d : ClassDraft) : Mirrors whole d call.run (call.apply d) := by
  cases call with
  | field flags name descriptor => exact d.declareField_mirrors flags name descriptor
  | method flags name descriptor attributes => exact d.declareMethod_mirrors flags name descriptor attributes
  | attach format content => exact d.attach_mirrors format content

/-- What a call adds to a class; the constants for its texts are in the pool. -/
inductive Call.Adds (pool : Pool) (d : ClassDraft) : Call → ClassDraft → Prop
  | field {flags name descriptor i j} : pool.Holds (.utf8 name) i → pool.Holds (.utf8 descriptor) j →
      Adds pool d (.field flags name descriptor) { d with fields := ⟨flags, i, j, []⟩ :: d.fields }
  | method {flags name descriptor attributes i j} : pool.Holds (.utf8 name) i →
      pool.Holds (.utf8 descriptor) j →
      Adds pool d (.method flags name descriptor attributes)
        { d with methods := ⟨flags, i, j, attributes⟩ :: d.methods }
  | attach {α a} {format : BodyFormat α} {content} : pool.Holds (.utf8 format.name) a.name →
      Adds pool d (.attach format content) { d with attributes := a :: d.attributes }

theorem Call.tidies_apply (call : Call) (d : ClassDraft) (pool : Pool) :
    Tidies (call.apply d) (fun d' pool' => call.Adds pool' d d') pool := by
  have hrefuse : ∀ e : Error, Tidies (Interning.ofExcept (.error e))
      (fun d' pool' => call.Adds pool' d d') pool := fun e => tidies_ofExcept _ fun _ h => by cases h
  cases call with
  | field flags name descriptor =>
      rw [apply, addField]
      split
      · exact Pool.tidies_texts name descriptor fun _ _ _ _ _ hi hj => tidies_pure (.field hi hj)
      · exact hrefuse _
  | method flags name descriptor attributes =>
      rw [apply, addMethod]
      split
      · exact Pool.tidies_texts name descriptor fun _ _ _ _ _ hi hj => tidies_pure (.method hi hj)
      · exact hrefuse _
  | attach format content =>
      exact (Pool.tidies_attributeFor format content pool).bind fun _ _ _ _ ha => tidies_pure (.attach ha.1)

end ClassDraft

/-! ## What is kept -/

/-- The member has what was asked for, by constants that the pool holds. -/
structure Declaration.Held {scope : Scope} (pool : Pool) (x : Declaration scope) (m : Member scope) :
    Prop where
  flags : m.flags = x.flags
  name : pool.Holds (.utf8 x.name) m.name
  descriptor : pool.Holds (.utf8 x.descriptor) m.descriptor
  attributes : m.attributes = x.attributes

/-- The draft has what the plan asks for so far, and its pool is tidy. -/
structure Plan.Followed (p : Plan) (d : ClassDraft) (pool : Pool) : Prop where
  tidy : pool.Tidy
  version : d.version = p.version
  flags : d.flags = p.flags
  thisName : pool.Named p.thisName d.thisClass
  superName : pool.Named p.superName d.superClass
  interfaces : List.Forall₂ (fun name i => pool.Named name i) p.interfaces d.interfaces
  fields : List.Forall₂ (Declaration.Held pool) p.fields d.fields.reverse
  methods : List.Forall₂ (Declaration.Held pool) p.methods d.methods.reverse
  attributes : List.Forall₂ (fun kind (a : Attribute) => pool.Holds (.utf8 kind) a.name) p.attributes
    d.attributes.reverse
  issued : ∀ x ∈ p.issued, pool.Holds (.utf8 x.1) x.2.name
  bodies : ∀ a ∈ p.bodies, MethodDraft.Finished pool a
  /-- No call gives a field attributes. -/
  bare : ∀ f ∈ d.fields, f.attributes = []

section

variable {p : Plan} {d d' : ClassDraft} {pool pool' : Pool}

theorem Declaration.Held.extends {scope : Scope} {x : Declaration scope} {m : Member scope}
    (h : x.Held pool m) (he : pool.Extends pool') : x.Held pool' m :=
  ⟨h.flags, he.holds h.name, he.holds h.descriptor, h.attributes⟩

theorem MethodDraft.Finished.extends {a : Attribute} (h : MethodDraft.Finished pool a)
    (he : pool.Extends pool') : MethodDraft.Finished pool' a := by
  obtain ⟨hn, code, hc, ht⟩ := h
  exact ⟨he.holds hn, code, hc, fun t htt => he.holds (ht t htt)⟩

namespace Plan.Followed

/-- Whatever else a pool is used for, the plan stays followed. -/
theorem grow (h : p.Followed d pool) (ht : pool'.Tidy) (he : pool.Extends pool') :
    p.Followed d pool' where
  tidy := ht
  version := h.version
  flags := h.flags
  thisName := h.thisName.extends he
  superName := h.superName.extends he
  interfaces := h.interfaces.imp fun _ _ hi => hi.extends he
  fields := h.fields.imp fun _ _ hf => hf.extends he
  methods := h.methods.imp fun _ _ hm => hm.extends he
  attributes := h.attributes.imp fun _ _ ha => he.holds ha
  issued x hx := he.holds (h.issued x hx)
  bodies a ha := (h.bodies a ha).extends he
  bare := h.bare

theorem run {α : Type} {x : Interning α} {Q : α → Pool → Prop} (h : p.Followed d pool)
    (hx : Interning.Tidies x Q pool) : p.Followed d (x pool).2 :=
  h.grow (hx h.tidy _ _ rfl).1 (hx h.tidy _ _ rfl).2.1

theorem record {call : ClassDraft.Call} (h : p.Followed d pool) (hc : call.Adds pool d d') :
    (p.record call).Followed d' pool := by
  cases hc with
  | field hi hj =>
      refine { h with fields := ?_, bare := List.forall_mem_cons.2 ⟨rfl, h.bare⟩ }
      rw [List.reverse_cons]
      exact List.rel_append h.fields (.cons ⟨rfl, hi, hj, rfl⟩ .nil)
  | method hi hj =>
      refine { h with methods := ?_ }
      rw [List.reverse_cons]
      exact List.rel_append h.methods (.cons ⟨rfl, hi, hj, rfl⟩ .nil)
  | attach ha =>
      refine { h with attributes := ?_ }
      rw [List.reverse_cons]
      exact List.rel_append h.attributes (.cons ha .nil)

theorem issue {kind : String} {a : Attribute} (h : p.Followed d pool)
    (ha : pool.Holds (.utf8 kind) a.name) :
    Plan.Followed { p with issued := (kind, a) :: p.issued } d pool := by
  refine { h with issued := fun x hx => ?_ }
  rcases List.mem_cons.1 hx with rfl | hx
  · exact ha
  · exact h.issued x hx

theorem finish {as : List Attribute} (h : p.Followed d pool)
    (ha : ∀ a ∈ as, MethodDraft.Finished pool a) :
    Plan.Followed { p with bodies := as ++ p.bodies } d pool := by
  refine { h with bodies := fun a hm => ?_ }
  rcases List.mem_append.1 hm with hm | hm
  · exact ha a hm
  · exact h.bodies a hm

/-- The names that the pool holds are read back from the class. -/
theorem met (h : p.Followed d pool) : p.Met (d.result pool) := by
  have hs := h.tidy.sound
  have hheld : ∀ {scope : Scope} (x : Declaration scope) (m : Member scope), x.Held pool m →
      x.Names pool.constants m := fun x m hm =>
    ⟨hm.flags, hm.name.utf8? hs, hm.descriptor.utf8? hs, hm.attributes⟩
  exact {
    version := h.version
    flags := h.flags
    thisName := h.thisName.className? hs
    superName := h.superName.className? hs
    interfaces := h.interfaces.imp fun _ _ hi => hi.className? hs
    fields := h.fields.imp hheld
    methods := h.methods.imp hheld
    attributes := h.attributes.imp fun _ _ ha => ha.utf8? hs
    issued := fun x hx => (h.issued x hx).utf8? hs
    bodies := fun a ha => by
      obtain ⟨hn, code, hc, ht⟩ := h.bodies a ha
      exact ⟨hn.utf8? hs, code, hc, fun t htt => (ht t htt).utf8? hs⟩
    closed := h.tidy.closed
    legible := h.tidy.legible }

end Plan.Followed

/-! ## Whole constructions -/

theorem ClassDraft.Built.followed (h : ClassDraft.Built p d pool) : p.Followed d pool := by
  induction h with
  | @start flags thisName superName interfaces d pool hx =>
      obtain ⟨ht, -, hq⟩ := ClassDraft.tidies_start flags thisName superName interfaces .empty
        Pool.tidy_empty _ _ hx
      obtain ⟨this, super, is, rfl, hthis, hsuper, his⟩ := hq d rfl
      exact ⟨ht, rfl, rfl, hthis, hsuper, his, .nil, .nil, .nil, by simp, by simp, by simp⟩
  | version version _ ih => exact { ih with version := rfl }
  -- Work in place comes out as work on values does, and that leaves a tidy pool.
  | @call p d pool d' pool' call _ hx ih =>
      obtain ⟨r, hr, hout⟩ := (call.mirrors d).of_ok hx
      obtain ⟨ht, he, hadds⟩ := call.tidies_apply d pool ih.tidy _ _ hr
      cases hout
      exact (ih.grow ht he).record (hadds _ rfl)
  | @refused p d pool e d' pool' call _ hx ih =>
      obtain ⟨rfl, hr⟩ := (call.mirrors d).of_error hx
      obtain ⟨ht, he, -⟩ := call.tidies_apply d' pool ih.tidy _ _ hr
      exact ih.grow ht he
  | request _ hr ih => exact ih.grow (ih.tidy.serve hr).1 (ih.tidy.serve hr).2
  | issue format content _ hx ih =>
      obtain ⟨ht, he, ha⟩ := Pool.tidies_attributeFor format content _ ih.tidy _ _ hx
      exact (ih.grow ht he).issue (ha _ rfl).1
  | method isStatic type _ ih => exact ih.run (MethodDraft.tidies_ofType type _ _)
  | @command p d pool m id command _ hm ih =>
      rw [(hm.mirrors id command).pool_eq pool]
      exact ih.run (m.tidies_apply id command pool)
  | @finished p d pool m attributes m' pool' _ hx ih =>
      obtain ⟨r, hr, hout⟩ := m.complete_mirrors.of_ok hx
      obtain ⟨ht, he, ha⟩ := m.tidies_finish pool ih.tidy _ _ hr
      cases hout
      exact (ih.grow ht he).finish (ha _ rfl)
  | @unfinished p d pool m e m' pool' _ hx ih =>
      obtain ⟨-, hr⟩ := m.complete_mirrors.of_error hx
      obtain ⟨ht, he, -⟩ := m.tidies_finish pool ih.tidy _ _ hr
      exact ih.grow ht he

/-- Whatever shares the pool with a class, the finished class has the names that were asked for, in the
order of the calls, and its constants are closed. -/
theorem ClassDraft.meets_plan (h : ClassDraft.Built p d pool) : p.Met (d.result pool) := h.followed.met

/-- A method that jumps to its start forever. -/
def MethodDraft.idle : MethodDraft where
  blocks := #[{ Block.start .entry (.ofLists [] []) none with ending := some (.jump .entry) }]
  returns := none
  finished := false

/-- The constants of a class with such a method, in the order in which its calls add them. -/
def idleConstants : List Constant :=
  [.utf8 "A", .classInfo ⟨1⟩, .utf8 "B", .classInfo ⟨3⟩, .utf8 "J", .utf16 [0x41, 0xD800], .string ⟨6⟩,
    .utf8 "StackMapTable", .utf8 "Code", .utf8 "()V"]

theorem MethodDraft.body_idle : idle.body = .ok ⟨[0xa7, 0, 0], [.full 0 [] []], ⟨0, 0⟩⟩ := by
  have hl : idle.layout = .ok (#[some 0], ⟨#[0xa7, 0, 0], [⟨1, .known 0⟩], [.entry], ⟨0, 0⟩⟩) := by
    refine (Layout.run_new (by decide) rfl rfl).trans ?_
    refine (Layout.run_placed rfl).trans ?_
    exact Layout.run_nil
  exact body_of_layout hl rfl (jumpTargets_of_sorted rfl (by decide)) rfl

theorem MethodDraft.finish_idle :
    ∃ a, idle.finish (.holding (idleConstants.take 7)) =
      (.ok ([a], { idle with finished := true }), .holding (idleConstants.take 9)) := by
  refine ⟨_, finish_eq_ok.2 ⟨rfl, _, [⟨⟨8⟩, [0, 1, 255, 0, 0, 0, 0, 0, 0]⟩],
    .holding (idleConstants.take 8), ⟨9⟩, body_idle, ?_, rfl, ?_, rfl, rfl⟩⟩
  · have hw : StackMapTable.write [.full 0 [] []] = .ok [0, 1, 255, 0, 0, 0, 0, 0, 0] := rfl
    simp [tableAttributes, Pool.attributeFor, StackMapTable.format, hw, Pool.holding, idleConstants,
      Pool.utf8, Pool.internAs_mk, Pool.empty_eq, Constant.width, Interning.pure_apply,
      bind_apply, Interning.map_apply, Except.map]
  · simp [Pool.holding, idleConstants, Pool.utf8, Pool.internAs_mk, Pool.empty_eq, Constant.width]

namespace ClassDraft

theorem Built.call_of_apply (h : Built p d pool) (call : Call)
    (hx : call.apply d pool = (.ok d', pool')) : Built (p.record call) d' pool' := by
  have hrun := call.mirrors d pool
  rw [hx] at hrun
  exact h.call call hrun

/-- A class that has itself as its interface. -/
def idle (fields : List Field) : ClassDraft := ⟨.java8, ⟨0x21⟩, ⟨2⟩, ⟨4⟩, [⟨2⟩], fields, [], []⟩

theorem start_idle :
    start ⟨0x21⟩ "A" "B" ["A"] .empty = (.ok (idle []), .holding (idleConstants.take 4)) := by
  simp [idle, start, Pool.classNamed, Pool.classInfo, Pool.holding, idleConstants, Pool.utf8,
    Pool.internAs_mk, Pool.empty_eq, Constant.width, bind_apply, Interning.map_apply, Except.map,
    Std.HashMap.getElem_insert]

theorem addField_idle : (idle []).addField ⟨2⟩ "A" "J" (.holding (idleConstants.take 4)) =
    (.ok (idle [⟨⟨2⟩, ⟨1⟩, ⟨5⟩, []⟩]), .holding (idleConstants.take 5)) := by
  have hd : (FieldType.parse "J").isOk = true := rfl
  simp [idle, addField, hd, Pool.holding, idleConstants, Pool.utf8, Pool.internAs_mk, Pool.empty_eq,
    Constant.width, bind_apply, Interning.map_apply, Except.map, Std.HashMap.getElem_insert]

theorem addMethod_idle (d : ClassDraft) (attributes : List Attribute) :
    d.addMethod ⟨9⟩ "A" "()V" attributes (.holding (idleConstants.take 9)) =
      (.ok { d with methods := ⟨⟨9⟩, ⟨1⟩, ⟨10⟩, attributes⟩ :: d.methods }, .holding idleConstants) := by
  have hr : MethodType.render ⟨[], none⟩ = "()V" := rfl
  have hd : (MethodType.parse "()V").isOk = true := by
    rw [← hr, MethodType.parse_render ⟨by simp, by simp⟩]
    rfl
  simp [addMethod, hd, Pool.holding, idleConstants, Pool.utf8, Pool.internAs_mk, Pool.empty_eq,
    Constant.width, bind_apply, Interning.map_apply, Except.map, Std.HashMap.getElem_insert]

end ClassDraft

/-- A class with an interface and a field, then a field that is refused, a string with an unpaired
surrogate, and a method whose body is finished on the same pool. One name stands for most of them, so
that constants are shared. -/
theorem ClassDraft.meets_plan_idle :
    ∃ p d pool, ClassDraft.Built p d pool ∧ p.fields = [⟨⟨2⟩, "A", "J", []⟩] ∧
      p.methods = [⟨⟨9⟩, "A", "()V", p.bodies⟩] ∧ p.bodies.length = 1 ∧ p.Met (d.result pool) := by
  have hu : (Pool.holding (idleConstants.take 5)).serve (.utf16 [0x41, 0xD800]) =
      .holding (idleConstants.take 6) := by
    have hc : Constant.ofUnits [0x41, 0xD800] = .utf16 [0x41, 0xD800] := rfl
    simp [Pool.serve, Pool.utf16, hc, Pool.holding, idleConstants, Pool.internAs_mk, Pool.empty_eq,
      Constant.width]
  have hs : (Pool.holding (idleConstants.take 6)).serve (.string ⟨6⟩) = .holding (idleConstants.take 7) := by
    simp [Pool.serve, Pool.string, Pool.holding, idleConstants, Pool.internAs_mk, Pool.empty_eq,
      Constant.width]
  have hc : (Pool.holding (idleConstants.take 6)).constants =
      ⟨1, [(6, .utf16 [0x41, 0xD800]), (5, .utf8 "J"), (4, .classInfo ⟨3⟩), (3, .utf8 "B"),
        (2, .classInfo ⟨1⟩), (1, .utf8 "A")], 7⟩ := by
    simp [Pool.holding, idleConstants, Pool.internAs_mk, Pool.empty_eq, Constant.width]
  have hhonest : (Pool.Request.string ⟨6⟩).Honest (.holding (idleConstants.take 6)) := by
    rw [Pool.Request.Honest, Pool.size, hc]
    exact ⟨⟨by decide, .utf16 [0x41, 0xD800], rfl, trivial⟩, trivial, trivial⟩
  obtain ⟨a, hf⟩ := MethodDraft.finish_idle
  have h := (Built.start start_idle).call_of_apply (.field ⟨2⟩ "A" "J") addField_idle
  have h := h.refused (.field ⟨2⟩ "y" "?") ((Call.mirrors _ _ _).trans rfl)
  have h := h.request (r := .utf16 [0x41, 0xD800]) trivial
  rw [hu] at h
  have h := h.request hhonest
  rw [hs] at h
  have h := h.finished ((MethodDraft.idle.complete_mirrors _).trans (congrArg _ hf))
  have h := h.call_of_apply (.method ⟨9⟩ "A" "()V" [a]) (addMethod_idle _ [a])
  exact ⟨_, _, _, h, rfl, rfl, rfl, meets_plan h⟩

end

end ClassForge
