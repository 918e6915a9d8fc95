import ClassForge.Pool

/-!
# Steps that can fail

A sequence of steps succeeds exactly when each of them does, on what the ones before it left. These
laws take a program that returned a result apart into its steps.
-/

namespace ClassForge

theorem except_bind_eq_ok {ε α β : Type} {x : Except ε α} {f : α → Except ε β} {b : β} :
    (x >>= f) = .ok b ↔ ∃ a, x = .ok a ∧ f a = .ok b := by
  cases x <;> simp [Bind.bind, Except.bind]

theorem except_bind_eq_error {ε α β : Type} {x : Except ε α} {f : α → Except ε β} {e : ε} :
    (x >>= f) = .error e ↔ x = .error e ∨ ∃ a, x = .ok a ∧ f a = .error e := by
  cases x with
  | error e' => simp [Bind.bind, Except.bind]
  | ok a => simp [Bind.bind, Except.bind]

/-- One step after the other: a failure ends the sequence, in the state that it left. -/
theorem bind_apply {ε σ α β : Type} (x : ExceptT ε (StateM σ) α) (f : α → ExceptT ε (StateM σ) β)
    (s : σ) :
    (x >>= f) s =
      match x s with
      | (.ok a, s') => f a s'
      | (.error e, s') => (.error e, s') := by
  simp only [Bind.bind, ExceptT.bind, ExceptT.mk, StateT.bind]
  rcases x s with ⟨_ | a, s'⟩ <;> rfl

namespace Interning

variable {α β : Type} {a a' : α} {b : β} {pool pool' : Pool}

theorem ofExcept_eq_ok {x : Except Error α} :
    ofExcept x pool = (.ok a, pool') ↔ x = .ok a ∧ pool = pool' := Prod.ext_iff

theorem pure_eq_ok : (pure a : Interning α) pool = (.ok a', pool') ↔ a = a' ∧ pool = pool' := by
  refine ofExcept_eq_ok.trans ?_
  rw [Except.ok.injEq]

theorem pure_apply (a : α) (pool : Pool) : (pure a : Interning α) pool = (.ok a, pool) := rfl

theorem bind_eq_ok {x : Interning α} {f : α → Interning β} :
    (x >>= f) pool = (.ok b, pool') ↔
      ∃ a pool₁, x pool = (.ok a, pool₁) ∧ f a pool₁ = (.ok b, pool') := by
  rw [bind_apply]
  refine ⟨fun h => ?_, fun h => ?_⟩
  · rcases hx : x pool with ⟨_ | a, pool₁⟩
    · rw [hx] at h
      cases h
    · rw [hx] at h
      exact ⟨a, pool₁, rfl, h⟩
  · obtain ⟨a, pool₁, hx, hf⟩ := h
    rw [hx]
    exact hf

theorem bind_cases {x : Interning α} {f : α → Interning β} {r : Except Error β}
    (h : (x >>= f) pool = (r, pool')) :
    (∃ e, x pool = (.error e, pool') ∧ r = .error e) ∨
      ∃ a pool₁, x pool = (.ok a, pool₁) ∧ f a pool₁ = (r, pool') := by
  rw [bind_apply] at h
  rcases hx : x pool with ⟨e | a, pool₁⟩
  · rw [hx] at h
    cases h
    exact Or.inl ⟨e, rfl, rfl⟩
  · rw [hx] at h
    exact Or.inr ⟨a, pool₁, rfl, h⟩

theorem map_apply (f : α → β) (x : Interning α) (pool : Pool) :
    (f <$> x) pool = ((x pool).1.map f, (x pool).2) := by
  simp only [Functor.map, ExceptT.map, ExceptT.mk, Bind.bind, StateT.bind]
  rcases x pool with ⟨_ | a, pool'⟩ <;> rfl

theorem map_eq_ok {f : α → β} {x : Interning α} :
    (f <$> x) pool = (.ok b, pool') ↔ ∃ a, x pool = (.ok a, pool') ∧ f a = b := by
  rw [← bind_pure_comp, bind_eq_ok]
  refine ⟨fun h => ?_, fun h => ?_⟩
  · obtain ⟨a, pool₁, hx, h⟩ := h
    obtain ⟨hf, rfl⟩ := pure_eq_ok.1 h
    exact ⟨a, hx, hf⟩
  · obtain ⟨a, hx, hf⟩ := h
    exact ⟨a, pool', hx, pure_eq_ok.2 ⟨hf, rfl⟩⟩

end Interning

namespace Pool

variable {α : Type} {pool pool' : Pool}

theorem empty_eq : Pool.empty = ⟨⟨1, [], 1⟩, ∅⟩ := rfl

/-- What a constant is answered with, and the pool that it leaves, field by field. -/
theorem internAs_mk (kind : IndexKind) (c : Constant) (start stop : Nat)
    (newest : List (Nat × Constant)) (indices : Std.HashMap Constant UInt16) :
    internAs kind c ⟨⟨start, newest, stop⟩, indices⟩ =
      match indices[c]? with
      | some i => (.ok ⟨i⟩, ⟨⟨start, newest, stop⟩, indices⟩)
      | none =>
        if stop + c.width > 65535 then
          (.error (.constantPoolOverflow c stop), ⟨⟨start, newest, stop⟩, indices⟩)
        else (.ok ⟨UInt16.ofNat stop⟩, ⟨⟨start, (stop, c) :: newest, stop + c.width⟩,
          indices.insert c (UInt16.ofNat stop)⟩) := by
  rw [internAs, bind_apply, intern]
  cases indices[c]? with
  | some i => rfl
  | none =>
      by_cases hn : stop + c.width > 65535
      · simp only [hn, if_true]
      · simp only [hn, if_false]
        rfl

/-- The pool after constants were added one by one. -/
def holding (cs : List Constant) : Pool := cs.foldl (fun pool c => (internAs .any c pool).2) .empty

theorem attributeFor_eq_ok {format : BodyFormat α} {body : α} {a : Attribute} :
    attributeFor format body pool = (.ok a, pool') ↔
      utf8 format.name pool = (.ok a.name, pool') ∧ format.write body = .ok a.info := by
  unfold attributeFor
  rw [Interning.bind_eq_ok]
  refine ⟨fun h => ?_, fun h => ?_⟩
  · obtain ⟨name, pool₁, hn, h⟩ := h
    cases hw : format.write body with
    | error e => rw [hw] at h; cases h
    | ok info =>
        rw [hw] at h
        obtain ⟨rfl, rfl⟩ := Interning.pure_eq_ok.1 h
        exact ⟨hn, rfl⟩
  · refine ⟨a.name, pool', h.1, ?_⟩
    rw [h.2]
    rfl

end Pool

end ClassForge
