import ClassForge.Descriptor.Parser
import ClassForge.Proofs.Interning
import Mathlib.Data.List.TakeWhile

/-!
# Descriptors read back

A type is read back from its descriptor, whatever text follows, if its class names can stand in one.
Nothing else is read: the parsers accept exactly the descriptors of such types. The main result is
`Descriptor.parses_iff_rendered`.
-/

namespace ClassForge

namespace DescriptorParser

variable {α : Type} {parse : DescriptorParser α} {written : α → List Char} {valid : α → Prop}

/-- The parser takes the written forms of valid values from the front of a text, and nothing else, and
leaves what follows them. -/
def Reads (parse : DescriptorParser α) (written : α → List Char) (valid : α → Prop) : Prop :=
  ∀ cs a rest, parse cs = .ok (a, rest) ↔ cs = written a ++ rest ∧ valid a

theorem Reads.run_eq_ok (h : parse.Reads written valid) {s : String} {a : α} :
    parse.run s = .ok a ↔ s = String.ofList (written a) ∧ valid a := by
  have hall : parse.run s = .ok a ↔ parse s.toList = .ok (a, []) := by
    unfold run
    rcases parse s.toList with e | ⟨b, _ | ⟨c, rest⟩⟩ <;> simp
  rw [hall, h, List.append_nil, String.ext_iff, String.toList_ofList]

end DescriptorParser

theorem BaseType.ofLetter?_eq_some {c : Char} {b : BaseType} : ofLetter? c = some b ↔ c = b.letter := by
  refine ⟨fun h => ?_, fun h => ?_⟩
  · have hb := List.find?_some h
    exact (of_decide_eq_true hb).symm
  · subst h
    cases b <;> rfl

namespace FieldType

/-- The name can stand in a descriptor. -/
def ValidName (name : String) : Prop := name ≠ "" ∧ ∀ c ∈ name.toList, isNameChar c

/-- All class names in the type can stand in a descriptor. -/
def WellNamed : FieldType → Prop
  | base _ => True
  | object name | value name => ValidName name
  | array t => t.WellNamed

theorem parseClassName_append {name : String} (h : ValidName name) (rest : List Char) :
    parseClassName (name.toList ++ ';' :: rest) = .ok (name, rest) := by
  have hstop : isNameChar ';' = false := rfl
  have htake : (name.toList ++ ';' :: rest).takeWhile isNameChar = name.toList := by
    rw [List.takeWhile_append_of_pos h.2, List.takeWhile_cons_of_neg (by simp [hstop]),
      List.append_nil]
  have hdrop : (name.toList ++ ';' :: rest).dropWhile isNameChar = ';' :: rest := by
    rw [List.dropWhile_append_of_pos h.2, List.dropWhile_cons_of_neg (by simp [hstop])]
  have hne : name.toList ≠ [] := fun he => h.1 (String.toList_eq_nil_iff.1 he)
  simp [parseClassName, htake, hdrop, hne]

theorem parseFrom_renderChars {t : FieldType} (h : t.WellNamed) (rest : List Char) :
    parseFrom (t.renderChars ++ rest) = .ok (t, rest) := by
  induction t with
  | base b => cases b <;> rfl
  | object name =>
      have hn := parseClassName_append h rest
      simp [renderChars, parseFrom, hn, Except.map]
  | value name =>
      have hn := parseClassName_append h rest
      simp [renderChars, parseFrom, hn, Except.map]
  | array t ih => simp [renderChars, parseFrom, ih h, Except.map]

/-- No type starts with a character that ends a list of parameters or stands for no result. -/
theorem exists_renderChars_cons (t : FieldType) :
    ∃ c cs, t.renderChars = c :: cs ∧ c ≠ ')' ∧ c ≠ 'V' := by
  cases t with
  | base b => cases b <;> exact ⟨_, _, rfl, by decide, by decide⟩
  | object name => exact ⟨_, _, rfl, by decide, by decide⟩
  | value name => exact ⟨_, _, rfl, by decide, by decide⟩
  | array t => exact ⟨_, _, rfl, by decide, by decide⟩

theorem of_parseClassName_eq_ok {cs rest : List Char} {name : String}
    (h : parseClassName cs = .ok (name, rest)) : cs = name.toList ++ ';' :: rest ∧ ValidName name := by
  have hsplit : cs.takeWhile isNameChar ++ cs.dropWhile isNameChar = cs := List.takeWhile_append_dropWhile
  have hchars : ∀ c ∈ cs.takeWhile isNameChar, isNameChar c := fun c hc => List.mem_takeWhile_imp hc
  simp only [parseClassName] at h
  split at h
  next => cases h
  next c tail htail =>
    split at h
    next => cases h
    next hc =>
      obtain rfl : c = ';' := not_not.1 hc
      split at h
      next => cases h
      next hne =>
        cases h
        refine ⟨by rw [String.toList_ofList, ← htail, hsplit], fun he => hne ?_, ?_⟩
        · rw [List.isEmpty_iff]
          simpa using congrArg String.toList he
        · rwa [String.toList_ofList]

theorem of_parseFrom_eq_ok {cs rest : List Char} {t : FieldType} (h : parseFrom cs = .ok (t, rest)) :
    cs = t.renderChars ++ rest ∧ t.WellNamed := by
  induction cs generalizing t rest with
  | nil => cases h
  | cons c cs ih =>
      simp only [parseFrom] at h
      split at h
      next hc =>
        obtain ⟨name, hn, rfl⟩ := exists_of_map_eq_ok h
        obtain ⟨rfl, hv⟩ := of_parseClassName_eq_ok hn
        exact ⟨by simp [renderChars, hc], hv⟩
      next =>
        split at h
        next hc =>
          obtain ⟨name, hn, rfl⟩ := exists_of_map_eq_ok h
          obtain ⟨rfl, hv⟩ := of_parseClassName_eq_ok hn
          exact ⟨by simp [renderChars, hc], hv⟩
        next =>
          split at h
          next hc =>
            obtain ⟨u, hu, rfl⟩ := exists_of_map_eq_ok h
            obtain ⟨rfl, hv⟩ := ih hu
            exact ⟨by simp [renderChars, hc], hv⟩
          next =>
            split at h
            next b hb =>
              cases h
              obtain rfl := BaseType.ofLetter?_eq_some.1 hb
              exact ⟨rfl, trivial⟩
            next => cases h

theorem parseFrom_reads : DescriptorParser.Reads parseFrom renderChars WellNamed := by
  refine fun cs t rest => ⟨of_parseFrom_eq_ok, ?_⟩
  rintro ⟨rfl, hv⟩
  exact parseFrom_renderChars hv rest

def isReference : FieldType → Bool
  | base _ => false
  | object _ | value _ | array _ => true

theorem isReference_iff_head {t : FieldType} {c : Char} {cs rest : List Char}
    (h : c :: cs = t.renderChars ++ rest) : t.isReference = true ↔ c = 'L' ∨ c = 'Q' ∨ c = '[' := by
  cases t with
  | base b =>
      obtain ⟨rfl, -⟩ := List.cons.inj h
      cases b <;> decide
  | object name | value name | array t =>
      obtain ⟨rfl, -⟩ := List.cons.inj h
      simp [isReference]

theorem parseReferenceFrom_reads :
    DescriptorParser.Reads parseReferenceFrom renderChars fun t => t.isReference = true ∧ t.WellNamed := by
  intro cs t rest
  cases cs with
  | nil =>
      obtain ⟨c, cs, hc, -⟩ := t.exists_renderChars_cons
      simp [parseReferenceFrom, hc]
  | cons c cs =>
      by_cases hc : c = 'L' ∨ c = 'Q' ∨ c = '['
      · rw [parseReferenceFrom, if_pos hc, parseFrom_reads]
        exact and_congr_right fun h => by simp [(isReference_iff_head h).2 hc]
      · rw [parseReferenceFrom, if_neg hc]
        simp only [reduceCtorEq, false_iff]
        rintro ⟨h, ht, -⟩
        exact hc ((isReference_iff_head h).1 ht)

theorem parse_eq_ok {s : String} {t : FieldType} : parse s = .ok t ↔ s = t.render ∧ t.WellNamed :=
  parseFrom_reads.run_eq_ok

theorem parse_render {t : FieldType} (h : t.WellNamed) : parse t.render = .ok t :=
  parse_eq_ok.2 ⟨rfl, h⟩

theorem parseReference_eq_ok {s : String} {t : FieldType} :
    parseReference s = .ok t ↔ s = t.render ∧ t.isReference = true ∧ t.WellNamed :=
  parseReferenceFrom_reads.run_eq_ok

end FieldType

namespace MethodType

/-- All class names in the type can stand in a descriptor. -/
structure WellNamed (m : MethodType) : Prop where
  parameters : ∀ t ∈ m.parameters, t.WellNamed
  returns : ∀ t ∈ m.returns, t.WellNamed

theorem parseParameters_renderChars {ts : List FieldType} (h : ∀ t ∈ ts, t.WellNamed)
    (acc : List FieldType) (rest : List Char) :
    parseParameters acc (ts.flatMap FieldType.renderChars ++ ')' :: rest) =
      .ok (acc.reverse ++ ts, rest) := by
  induction ts generalizing acc with
  | nil =>
      rw [List.flatMap_nil, List.nil_append, parseParameters, List.append_nil]
  | cons t ts ih =>
      obtain ⟨ht, hts⟩ := List.forall_mem_cons.1 h
      have hp := FieldType.parseFrom_renderChars ht (ts.flatMap FieldType.renderChars ++ ')' :: rest)
      have hnext := ih hts (t :: acc)
      rw [List.reverse_cons, List.append_assoc, List.singleton_append] at hnext
      rw [List.flatMap_cons, List.append_assoc]
      obtain ⟨c, cs, hc, hne, -⟩ := t.exists_renderChars_cons
      rw [parseParameters]
      · split
        next he => rw [he] at hp; cases hp
        next he =>
          rw [he] at hp
          cases hp
          exact hnext
      · intro rest' he
        rw [hc] at he
        cases he
        exact hne rfl

theorem of_parseParameters_eq_ok {acc ts : List FieldType} {cs rest : List Char}
    (h : parseParameters acc cs = .ok (ts, rest)) :
    ∃ us, ts = acc.reverse ++ us ∧ cs = us.flatMap FieldType.renderChars ++ ')' :: rest ∧
      ∀ t ∈ us, t.WellNamed := by
  fun_induction parseParameters acc cs with
  | case1 acc cs =>
      cases h
      exact ⟨[], by simp, by simp, by simp⟩
  | case2 => cases h
  | case3 acc cs _ t cs' hp _ ih =>
      obtain ⟨us, rfl, rfl, hus⟩ := ih h
      obtain ⟨rfl, ht⟩ := FieldType.of_parseFrom_eq_ok hp
      exact ⟨t :: us, by simp, by simp, List.forall_mem_cons.2 ⟨ht, hus⟩⟩

/-- The part of a descriptor behind the parameters. -/
def renderReturns : Option FieldType → List Char
  | none => ['V']
  | some t => t.renderChars

theorem parseReturns_reads : DescriptorParser.Reads parseReturns renderReturns
    fun returns => ∀ t ∈ returns, t.WellNamed := by
  intro cs returns rest
  fun_cases parseReturns cs with
  | case1 cs =>
      -- no type starts with the letter that stands for no result
      cases returns with
      | none => simp [renderReturns, eq_comm]
      | some t =>
          obtain ⟨c, cs', hc, -, hne⟩ := t.exists_renderChars_cons
          simp [renderReturns, hc, hne.symm]
  | case2 cs hcs =>
      cases returns with
      | none =>
          refine iff_of_false (fun h => ?_) (fun h => hcs rest h.1)
          obtain ⟨t, -, ht⟩ := FieldType.exists_of_map_eq_ok h
          cases ht
      | some t =>
          have hp := FieldType.parseFrom_reads cs t rest
          simp only [renderReturns, Option.mem_some_iff, forall_eq', ← hp]
          refine ⟨fun h => ?_, fun h => by rw [h]; rfl⟩
          obtain ⟨u, hu, ht⟩ := FieldType.exists_of_map_eq_ok h
          cases ht
          exact hu

theorem renderChars_eq (m : MethodType) : m.renderChars =
    '(' :: m.parameters.flatMap FieldType.renderChars ++ ')' :: renderReturns m.returns := by
  cases m with
  | mk parameters returns => cases returns <;> rfl

theorem parseFrom_reads : DescriptorParser.Reads parseFrom renderChars WellNamed := by
  intro cs m rest
  rw [renderChars_eq]
  refine ⟨fun h => ?_, ?_⟩
  · unfold parseFrom at h
    split at h
    next cs =>
      obtain ⟨⟨parameters, cs₁⟩, hp, h⟩ := except_bind_eq_ok.1 h
      obtain ⟨⟨returns, cs₂⟩, hr, h⟩ := except_bind_eq_ok.1 h
      cases h
      obtain ⟨us, rfl, rfl, hus⟩ := of_parseParameters_eq_ok hp
      obtain ⟨rfl, ht⟩ := (parseReturns_reads _ _ _).1 hr
      exact ⟨by simp, hus, ht⟩
    next => cases h
  · rintro ⟨rfl, hm⟩
    have hp := parseParameters_renderChars hm.parameters [] (renderReturns m.returns ++ rest)
    have hr := (parseReturns_reads _ m.returns rest).2 ⟨rfl, hm.returns⟩
    rw [List.cons_append, List.cons_append, List.append_assoc]
    exact except_bind_eq_ok.2 ⟨_, hp, except_bind_eq_ok.2 ⟨_, hr, rfl⟩⟩

theorem parse_eq_ok {s : String} {m : MethodType} : parse s = .ok m ↔ s = m.render ∧ m.WellNamed :=
  parseFrom_reads.run_eq_ok

theorem parse_render {m : MethodType} (h : m.WellNamed) : parse m.render = .ok m :=
  parse_eq_ok.2 ⟨rfl, h⟩

end MethodType

/-! ## Class names -/

/-- The names are not empty and hold no character that would end or break a class name. -/
def Nameable (names : List String) : Prop :=
  ∀ name ∈ names, name ≠ "" ∧ ';' ∉ name.toList ∧ '.' ∉ name.toList ∧ '[' ∉ name.toList

namespace FieldType

/-- The class names that occur in the type. -/
def classNames : FieldType → List String
  | base _ => []
  | object name | value name => [name]
  | array t => t.classNames

theorem validName_iff {name : String} : ValidName name ↔
    name ≠ "" ∧ ';' ∉ name.toList ∧ '.' ∉ name.toList ∧ '[' ∉ name.toList := by
  refine and_congr_right fun _ => ⟨fun h => ⟨?_, ?_, ?_⟩, fun ⟨hs, hd, hb⟩ c hc => ?_⟩
  · exact fun hc => absurd (h _ hc) (by decide)
  · exact fun hc => absurd (h _ hc) (by decide)
  · exact fun hc => absurd (h _ hc) (by decide)
  · have hne : c ≠ ';' ∧ c ≠ '.' ∧ c ≠ '[' :=
      ⟨fun he => hs (he ▸ hc), fun he => hd (he ▸ hc), fun he => hb (he ▸ hc)⟩
    simp [isNameChar, hne]

theorem wellNamed_iff {t : FieldType} : t.WellNamed ↔ Nameable t.classNames := by
  induction t with
  | base b => simp [WellNamed, classNames, Nameable]
  | object name | value name => simp [WellNamed, classNames, Nameable, validName_iff]
  | array t ih => exact ih

end FieldType

namespace MethodType

def classNames (m : MethodType) : List String :=
  (m.parameters ++ m.returns.toList).flatMap FieldType.classNames

theorem wellNamed_iff {m : MethodType} : m.WellNamed ↔ Nameable m.classNames := by
  have hall : Nameable m.classNames ↔ ∀ t ∈ m.parameters ++ m.returns.toList, t.WellNamed := by
    simp only [FieldType.wellNamed_iff, Nameable, classNames, List.mem_flatMap]
    exact ⟨fun h t ht name hn => h name ⟨t, ht, hn⟩, fun h name ⟨t, ht, hn⟩ => h t ht name hn⟩
  rw [hall, List.forall_mem_append]
  simp only [Option.mem_toList]
  exact ⟨fun h => ⟨h.parameters, h.returns⟩, fun h => ⟨h.1, h.2⟩⟩

end MethodType

/-- A descriptor is accepted exactly if it is the written form of a type whose class names can stand in
one, and reading takes no more and no less of a longer text. -/
theorem Descriptor.parses_iff_rendered :
    (∀ s t, FieldType.parseReference s = .ok t ↔
      s = t.render ∧ t.isReference = true ∧ Nameable t.classNames) ∧
    (∀ s t, FieldType.parse s = .ok t ↔ s = t.render ∧ Nameable t.classNames) ∧
    (∀ s m, MethodType.parse s = .ok m ↔ s = m.render ∧ Nameable m.classNames) ∧
    (∀ cs t rest, FieldType.parseReferenceFrom cs = .ok (t, rest) ↔
      cs = t.render.toList ++ rest ∧ t.isReference = true ∧ Nameable t.classNames) ∧
    (∀ cs t rest, FieldType.parseFrom cs = .ok (t, rest) ↔
      cs = t.render.toList ++ rest ∧ Nameable t.classNames) ∧
    ∀ cs m rest, MethodType.parseFrom cs = .ok (m, rest) ↔
      cs = m.render.toList ++ rest ∧ Nameable m.classNames := by
  simp only [FieldType.render, MethodType.render, String.toList_ofList, ← FieldType.wellNamed_iff,
    ← MethodType.wellNamed_iff]
  exact ⟨fun _ _ => FieldType.parseReference_eq_ok, fun _ _ => FieldType.parse_eq_ok,
    fun _ _ => MethodType.parse_eq_ok, FieldType.parseReferenceFrom_reads, FieldType.parseFrom_reads,
    MethodType.parseFrom_reads⟩

end ClassForge
