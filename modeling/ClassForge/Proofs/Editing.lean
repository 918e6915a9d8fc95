import ClassForge.Editing
import ClassForge.Proofs.Assembly.Paths

/-!
# Work in place

What is changed in place comes out as the functions on values say, and a failure leaves the old value:
the checks of an operation stand before its first change. `failures_change_nothing` collects this for
blocks, methods and classes.
-/

namespace ClassForge

/-! ## Steps -/

namespace Editing

variable {σ α β ρ : Type} {v v' : σ} {pool pool' : Pool}

/-- What work in place comes to, given the outcome on values: `out` says which part is the answer and
which the new value, and a failure leaves the old value. -/
def settle (out : ρ → α × σ) (v : σ) : Except Error ρ × Pool → Except Error α × σ × Pool
  | (.ok r, pool) => (.ok (out r).1, ((out r).2, pool))
  | (.error e, pool) => (.error e, (v, pool))

/-- The steps in place do what the steps on values do. -/
def Mirrors (out : ρ → α × σ) (v : σ) (x : Editing σ α) (y : Interning ρ) : Prop :=
  ∀ pool, x (v, pool) = settle out v (y pool)

/-- Nothing is answered. -/
def whole (v : σ) : Unit × σ := ((), v)

/-- The answer comes with the new value. -/
abbrev answered (r : α × σ) : α × σ := r

theorem Mirrors.onPool {out : ρ → α × σ} {x : Interning β} {g : β → Editing σ α} {f : β → Interning ρ}
    (h : ∀ a, Mirrors out v (g a) (f a)) : Mirrors out v (onPool x >>= g) (x >>= f) := by
  intro pool
  rw [bind_apply, bind_apply, Editing.onPool]
  rcases x pool with ⟨e | a, pool₁⟩
  · rfl
  · exact h a pool₁

theorem Mirrors.current {out : ρ → α × σ} {g : σ → Editing σ α} {y : Interning ρ}
    (h : Mirrors out v (g v) y) : Mirrors out v (current >>= g) y := h

theorem Mirrors.check {out : ρ → α × σ} {x : Except Error β} {g : β → Editing σ α} {f : β → Interning ρ}
    (h : ∀ a, Mirrors out v (g a) (f a)) :
    Mirrors out v (check x >>= g) (Interning.ofExcept x >>= f) := by
  intro pool
  rw [bind_apply, Editing.check]
  cases x with
  | error e => rfl
  | ok a => exact h a pool

theorem Mirrors.of_error {out : ρ → α × σ} {x : Editing σ α} {y : Interning ρ} {e : Error}
    (h : Mirrors out v x y) (hx : x (v, pool) = (.error e, (v', pool'))) :
    v' = v ∧ y pool = (.error e, pool') := by
  rw [h pool] at hx
  rcases hy : y pool with ⟨e' | r, pool₁⟩
  · rw [hy] at hx
    cases hx
    exact ⟨rfl, rfl⟩
  · rw [hy] at hx
    cases hx

theorem Mirrors.of_ok {out : ρ → α × σ} {x : Editing σ α} {y : Interning ρ} {a : α}
    (h : Mirrors out v x y) (hx : x (v, pool) = (.ok a, (v', pool'))) :
    ∃ r, y pool = (.ok r, pool') ∧ out r = (a, v') := by
  rw [h pool] at hx
  rcases hy : y pool with ⟨e' | r, pool₁⟩
  · rw [hy] at hx
    cases hx
  · rw [hy] at hx
    cases hx
    exact ⟨r, rfl, rfl⟩

/-- The pool comes out the same, whether the steps succeed or not. -/
theorem Mirrors.pool_eq {out : ρ → α × σ} {x : Editing σ α} {y : Interning ρ} (h : Mirrors out v x y)
    (pool : Pool) : (x (v, pool)).2.2 = (y pool).2 := by
  rw [h pool]
  rcases y pool with ⟨e | r, pool₁⟩ <;> rfl

end Editing

/-! ## Frames -/

theorem Frame.pop_cases (f : Frame) :
    f.pop = .error .emptyStack ∧ f.stack.last? = none ∨
      ∃ t f', f.pop = .ok (t, f') ∧ f.stack.last? = some t := by
  cases hs : f.stack.newest with
  | nil => exact Or.inl (by simp [Frame.pop, Slots.pop?, Slots.last?, hs])
  | cons entry rest => exact Or.inr (by simp [Frame.pop, Slots.pop?, Slots.last?, hs])

namespace FrameUpdate

variable {α β : Type} {f : Frame}

/-- The update comes out as a function on frames does. What a failed update leaves of the frame is not
said: it may have stopped halfway. -/
inductive Follows (u : FrameUpdate α) (f : Frame) : Except VerifyError (α × Frame) → Prop
  | ok {a f'} : u f = (.ok a, f') → Follows u f (.ok (a, f'))
  | error {e} : (u f).1 = .error e → Follows u f (.error e)

theorem Follows.bind {u : FrameUpdate α} {k : α → FrameUpdate β} {x : Except VerifyError (α × Frame)}
    {y : α × Frame → Except VerifyError (β × Frame)} (h : Follows u f x)
    (hk : ∀ a f', Follows (k a) f' (y (a, f'))) : Follows (u >>= k) f (x >>= y) := by
  have hbind := bind_apply u k f
  cases h with
  | @error e hu =>
      refine .error ?_
      rw [hbind]
      rcases huf : u f with ⟨r, g⟩
      rw [huf] at hu
      cases hu
      rfl
  | @ok a f' hu =>
      rw [hu] at hbind
      have hy := hk a f'
      change Follows _ f (y (a, f'))
      cases hya : y (a, f') with
      | error e =>
          rw [hya] at hy
          cases hy with
          | error hy => exact .error (by rw [hbind]; exact hy)
      | ok r =>
          rw [hya] at hy
          cases hy with
          | ok hy => exact .ok (by rw [hbind]; exact hy)

theorem follows_pop : Follows pop f f.pop := by
  cases h : f.pop with
  | error e => exact .error (by simp [pop, h])
  | ok r => exact .ok (by simp [pop, h])

theorem follows_localAt (slot : UInt16) :
    Follows (localAt slot) f ((f.localAt slot).map fun t => (t, f)) := by
  cases h : f.localAt slot with
  | error e => exact .error (by simp [localAt, h])
  | ok t => exact .ok (by simp [localAt, h])

theorem follows_reserve (t : VType) : Follows (reserve t) f (f.reserve t) := by
  cases h : f.reserve t with
  | error e => exact .error (by simp [reserve, h])
  | ok r => exact .ok (by simp [reserve, h])

theorem follows_popExpecting (t : VType) :
    Follows (popExpecting t) f ((f.popExpecting t).map fun f' => ((), f')) := by
  rcases f.pop_cases with ⟨hp, hl⟩ | ⟨found, f', hp, hl⟩
  · simp only [Frame.popExpecting, hp, Bind.bind, Except.bind]
    exact .error (by simp [popExpecting, hl])
  · by_cases ha : found.assignable t
    · simp only [Frame.popExpecting, hp, Bind.bind, Except.bind, ha, if_true]
      exact .ok (by simp [popExpecting, pop, hl, hp, ha])
    · simp only [Frame.popExpecting, hp, Bind.bind, Except.bind, ha]
      exact .error (by simp [popExpecting, hl, ha])

theorem follows_pops (pops : List VType) :
    Follows (pops.forM popExpecting) f ((pops.foldlM Frame.popExpecting f).map fun f' => ((), f')) := by
  induction pops generalizing f with
  | nil => exact .ok rfl
  | cons t pops ih =>
      have h := (follows_popExpecting (f := f) t).bind (k := fun _ => pops.forM popExpecting)
        (y := fun r => (pops.foldlM Frame.popExpecting r.2).map fun f' => ((), f')) fun _ _ => ih
      rw [List.foldlM_cons]
      cases hf : f.popExpecting t with
      | error e => rw [hf] at h; exact h
      | ok f' => rw [hf] at h; exact h

theorem pushes_eq (pushes : List VType) (f : Frame) :
    pushes.forM push f = (.ok (), pushes.foldl Frame.push f) := by
  induction pushes generalizing f with
  | nil => rfl
  | cons t pushes ih => exact ih (f.push t)

theorem follows_exchange (pops pushes : List VType) :
    Follows (exchange pops pushes) f ((f.exchange pops pushes).map fun f' => ((), f')) := by
  have h := (follows_pops (f := f) pops).bind (k := fun _ => pushes.forM push)
    (y := fun r => .ok ((), pushes.foldl Frame.push r.2)) fun _ f' => .ok (pushes_eq pushes f')
  rw [Frame.exchange]
  cases hf : pops.foldlM Frame.popExpecting f with
  | error e => rw [hf] at h; exact h
  | ok f' => rw [hf] at h; exact h

theorem follows_duplicate : Follows duplicate f (f.pop >>= fun r => .ok (r.1, (r.2.push r.1).push r.1)) :=
  follows_pop.bind fun _ _ => .ok rfl

end FrameUpdate

/-! ## Blocks -/

namespace Block

open Editing

variable {α : Type} {b b' : Block} {pool pool' : Pool}

/-- While the block is open, its maxima cover its frame. -/
def Covered (b : Block) : Prop := b.ending = none → b.maxima.cover b.frame = b.maxima

theorem requireOpen_bind (ho : b.ending = none) (f : Unit → Editing Block α) :
    (requireOpen >>= f) (b, pool) = f () (b, pool) := by
  simp [bind_apply, requireOpen, current, check, checkOpen, ho]

theorem verify_bind {β : Type} {u : FrameUpdate α} {x : Except VerifyError (α × Frame)}
    (ho : b.ending = none) (instruction : String) (k : α → Editing Block β) : u.Follows b.frame x →
    (verify instruction u >>= k) (b, pool) =
      match x with
      | .ok (a, frame) => k a (b.advance frame, pool)
      | .error e => (.error (.verifier instruction e), (b, pool)) := by
  intro h
  rw [bind_apply, verify, requireOpen_bind ho]
  cases h with
  | ok hu =>
      simp only [bind_apply, current, hu, change]
      rfl
  | error hu =>
      rcases huf : u b.frame with ⟨r, f⟩
      rw [huf] at hu
      cases hu
      simp only [bind_apply, current, huf]
      rfl

theorem Mirrors.silent {x : Editing Block Unit} {y : Interning Block} (h : Mirrors whole b x y) :
    Mirrors answered b (silently x) (Block.silent y) := by
  intro pool
  rw [silently, bind_apply, h pool, silent_eq, Interning.map_apply]
  rcases y pool with ⟨e | b', pool₁⟩ <;> rfl

theorem mirrors_write (ho : b.ending = none) (mnemonic : String) (pops pushes : List VType)
    (i : Instruction) :
    Mirrors whole b (write mnemonic pops pushes i) (Interning.ofExcept (b.emit mnemonic pops pushes i)) := by
  intro pool
  rw [write, verify_bind ho _ _ (FrameUpdate.follows_exchange pops pushes), emit, checkOpen_bind ho]
  cases b.frame.exchange pops pushes <;> rfl

/-- Looking a local up changes nothing, for the maxima cover the frame already. -/
theorem movable_bind (ho : b.ending = none) (hc : b.Covered) (verb : String) (slot : UInt16)
    (k : VType × Bank → Editing Block α) :
    (movable verb slot >>= k) (b, pool) =
      match b.bankAt verb slot with
      | .ok r => k r (b, pool)
      | .error e => (.error e, (b, pool)) := by
  have hb : b.advance b.frame = b := by
    rw [advance, hc ho]
  rw [bind_apply, movable, verify_bind ho _ _ (FrameUpdate.follows_localAt slot), bankAt,
    checkOpen_bind ho]
  cases b.frame.localAt slot with
  | error e => rfl
  | ok t =>
      simp only [Except.map, hb, blame, Except.mapError, Bind.bind, Except.bind]
      cases Bank.ofType? t <;> rfl

theorem mirrors_movable (ho : b.ending = none) (hc : b.Covered) (verb : String) (slot : UInt16)
    {k : VType × Bank → Editing Block Unit} {f : VType × Bank → Except Error Block}
    (h : ∀ r, Mirrors whole b (k r) (Interning.ofExcept (f r))) :
    Mirrors whole b (movable verb slot >>= k) (Interning.ofExcept (b.bankAt verb slot >>= f)) := by
  intro pool
  rw [movable_bind ho hc]
  cases b.bankAt verb slot with
  | error e => rfl
  | ok r => exact h r pool

theorem exchange_top {t : VType} {f f' : Frame} (hp : f.pop = .ok (t, f')) (pushes : List VType) :
    f.exchange [t] pushes = .ok (pushes.foldl Frame.push f') := by
  have ht : t.assignable t = true := by cases t <;> simp [VType.assignable]
  simp [Frame.exchange, Frame.popExpecting, hp, Bind.bind, Except.bind, ht, pure, Except.pure]

theorem mirrors_pop (ho : b.ending = none) : Mirrors answered b (perform .pop) (b.apply .pop) := by
  refine Mirrors.silent fun pool => ?_
  rw [verify_bind ho _ _ FrameUpdate.follows_pop, pop, checkOpen_bind ho]
  rcases b.frame.pop_cases with ⟨hp, hl⟩ | ⟨t, f, hp, hl⟩
  · simp only [hp, top, hl]
    rfl
  · simp only [hp, top, hl, Bind.bind, Except.bind, emit, checkOpen, ho, exchange_top hp]
    rfl

theorem mirrors_dup (ho : b.ending = none) : Mirrors answered b (perform .dup) (b.apply .dup) := by
  refine Mirrors.silent fun pool => ?_
  rw [verify_bind ho _ _ FrameUpdate.follows_duplicate, dup, checkOpen_bind ho]
  rcases b.frame.pop_cases with ⟨hp, hl⟩ | ⟨t, f, hp, hl⟩
  · simp only [hp, top, hl]
    rfl
  · simp only [hp, top, hl, Bind.bind, Except.bind, emit, checkOpen, ho, exchange_top hp]
    rfl

/-- Sealing an open block cannot fail, so it does not matter which block a failure would leave. -/
theorem sealWith_eq (ho : b.ending = none) (ending : Ending) (old : Block) :
    sealWith ending (b, pool) = settle whole old (Interning.ofExcept (b.close ending) pool) := by
  rw [sealWith, requireOpen_bind ho, close_eq_ok.2 ⟨ho, rfl⟩]
  rfl

theorem mirrors_returnVoid (ho : b.ending = none) :
    Mirrors answered b (perform .returnVoid) (b.apply .returnVoid) := by
  refine Mirrors.silent fun pool => ?_
  rw [requireOpen_bind ho, returnVoid, checkOpen_bind ho]
  cases hr : b.returns with
  | some expected => simp only [bind_apply, current, hr]; rfl
  | none =>
      simp only [bind_apply, current, hr]
      exact sealWith_eq ho _ b

theorem mirrors_returnValue (ho : b.ending = none) :
    Mirrors answered b (perform .returnValue) (b.apply .returnValue) := by
  refine Mirrors.silent fun pool => ?_
  rw [sealReturn, requireOpen_bind ho, returnValue, checkOpen_bind ho]
  rcases b.frame.pop_cases with ⟨hp, hl⟩ | ⟨t, f, hp, hl⟩
  · simp only [bind_apply, current, check, top, hl]
    rfl
  · have hdrop : FrameUpdate.pop b.frame = (.ok t, f) := by rw [FrameUpdate.pop, hp]
    have htop : b.top "return" = .ok t := by rw [top, hl]
    simp only [bind_apply, current, check, htop]
    simp only [blame, hp, Except.mapError, Bind.bind, Except.bind, Option.bind]
    cases hr : b.returns with
    | none => rfl
    | some expected =>
        cases ha : t.assignable expected with
        | false =>
            simp only [ha]
            rfl
        | true =>
            cases hx : expected.returnOpcode? with
            | none =>
                simp only [ha, hx]
                rfl
            | some opcode =>
                simp only [ha, hx, if_true]
                change (dropTop "return" >>= fun _ => sealWith (.ret opcode)) (b, pool) = _
                rw [bind_apply, dropTop]
                simp only [bind_apply, current, hdrop, change]
                rw [sealWith_eq (b := { b with frame := f }) ho _ b, hr]

theorem mirrors_branch (ho : b.ending = none) (condition : Condition) (ifTrue ifFalse : BlockId) :
    Mirrors answered b (perform (.branch condition ifTrue ifFalse)) (b.apply (.branch condition ifTrue ifFalse)) := by
  refine Mirrors.silent fun pool => ?_
  rw [requireOpen_bind ho, branch, checkOpen_bind ho]
  cases hn : condition.negatedOpcode?.isNone with
  | true => rfl
  | false =>
      simp only [Bool.false_eq_true, if_false]
      change (verify _ _ >>= fun _ => sealWith _) _ = _
      rw [verify_bind ho _ _ (FrameUpdate.follows_exchange _ _)]
      cases b.frame.exchange [.integer, .integer] [] with
      | error e => rfl
      | ok f => exact sealWith_eq (b := b.advance f) ho _ b

theorem perform_mirrors_of_open (ho : b.ending = none) (hc : b.Covered) (command : Command) :
    Mirrors answered b (perform command) (b.apply command) := by
  cases command with
  | reserve t =>
      intro pool
      rw [perform, verify_bind ho _ _ (FrameUpdate.follows_reserve t), apply, reserve, checkOpen_bind ho]
      rcases b.frame.reserve t with e | ⟨slot, frame⟩ <;> rfl
  | load slot =>
      exact Mirrors.silent (mirrors_movable ho hc "load" slot fun _ => mirrors_write ho _ _ _ _)
  | store slot =>
      exact Mirrors.silent (mirrors_movable ho hc "store" slot fun _ => mirrors_write ho _ _ _ _)
  | pushInt value =>
      refine Mirrors.silent fun pool => ?_
      rw [requireOpen_bind ho, pushInt, ofExcept_checkOpen_bind ho]
      exact Mirrors.onPool (fun _ => mirrors_write ho _ _ _ _) pool
  | accessField access field =>
      refine Mirrors.silent fun pool => ?_
      rw [requireOpen_bind ho, accessField, ofExcept_checkOpen_bind ho]
      exact Mirrors.onPool (fun _ => .onPool fun _ => .onPool fun _ => mirrors_write ho _ _ _ _) pool
  | defaultValue name =>
      refine Mirrors.silent fun pool => ?_
      rw [requireOpen_bind ho, defaultValue, ofExcept_checkOpen_bind ho]
      exact Mirrors.onPool (fun _ => mirrors_write ho _ _ _ _) pool
  | invokeStatic method =>
      refine Mirrors.silent fun pool => ?_
      rw [requireOpen_bind ho, invokeStatic, ofExcept_checkOpen_bind ho]
      exact Mirrors.onPool (fun _ => .onPool fun _ => .onPool fun _ => mirrors_write ho _ _ _ _) pool
  | arithmetic op kind =>
      refine Mirrors.silent fun pool => ?_
      rw [arithmetic]
      split
      · exact mirrors_write ho _ _ _ _ pool
      · rfl
  | negate kind => exact Mirrors.silent (mirrors_write ho _ _ _ _)
  | pop => exact mirrors_pop ho
  | dup => exact mirrors_dup ho
  | returnVoid => exact mirrors_returnVoid ho
  | returnValue => exact mirrors_returnValue ho
  | jump target => exact Mirrors.silent fun _ => sealWith_eq ho _ b
  | branch condition ifTrue ifFalse => exact mirrors_branch ho condition ifTrue ifFalse

theorem requireOpen_bind_of_sealed (hs : b.isSealed) (f : Unit → Editing Block α) :
    (requireOpen >>= f) (b, pool) = (.error (.alreadySealed b.id), (b, pool)) := by
  obtain ⟨ending, he⟩ := Option.isSome_iff_exists.1 hs
  simp [bind_apply, requireOpen, current, check, checkOpen, he]

theorem verify_of_sealed {β : Type} (hs : b.isSealed) (instruction : String) (u : FrameUpdate α)
    (k : α → Editing Block β) :
    (verify instruction u >>= k) (b, pool) = (.error (.alreadySealed b.id), (b, pool)) := by
  rw [bind_apply, verify, requireOpen_bind_of_sealed hs]

theorem checkOpen_of_sealed (hs : b.isSealed) : b.checkOpen = .error (.alreadySealed b.id) := by
  obtain ⟨ending, he⟩ := Option.isSome_iff_exists.1 hs
  rw [checkOpen, he]

theorem refused_silently {x : Editing Block Unit} {y : Interning Block} {e : Error}
    (hx : x (b, pool) = (.error e, (b, pool))) (hy : y pool = (.error e, pool)) :
    ∃ e, silently x (b, pool) = (.error e, (b, pool)) ∧ silent y pool = (.error e, pool) := by
  refine ⟨e, by rw [silently, bind_apply, hx], ?_⟩
  rw [silent_eq, Interning.map_apply, hy]
  rfl

/-- A block that is sealed refuses every command, before anything is changed or added. -/
theorem refused_of_sealed (hs : b.isSealed) (command : Command) (pool : Pool) :
    ∃ e, perform command (b, pool) = (.error e, (b, pool)) ∧ b.apply command pool = (.error e, pool) := by
  have hopen := checkOpen_of_sealed hs
  cases command with
  | reserve t => exact ⟨_, verify_of_sealed hs _ _ _, by rw [apply, reserve, hopen]; rfl⟩
  | load slot =>
      refine refused_silently (e := .alreadySealed b.id) ?_ (by rw [load, bankAt, hopen]; rfl)
      rw [bind_apply, movable, verify_of_sealed hs]
  | store slot =>
      refine refused_silently (e := .alreadySealed b.id) ?_ (by rw [store, bankAt, hopen]; rfl)
      rw [bind_apply, movable, verify_of_sealed hs]
  | arithmetic op kind =>
      by_cases hk : op.isDefinedOn kind
      · refine refused_silently (e := .alreadySealed b.id) ?_ (by rw [arithmetic, if_pos hk, emit, hopen]; rfl)
        rw [if_pos hk]
        exact verify_of_sealed hs _ _ _
      · exact refused_silently (by rw [if_neg hk]; rfl) (by rw [arithmetic, if_neg hk]; rfl)
  | negate kind =>
      exact refused_silently (verify_of_sealed hs _ _ _) (by rw [negate, emit, hopen]; rfl)
  | pop => exact refused_silently (verify_of_sealed hs _ _ _) (by rw [pop, hopen]; rfl)
  | dup => exact refused_silently (verify_of_sealed hs _ _ _) (by rw [dup, hopen]; rfl)
  | pushInt value =>
      exact refused_silently (requireOpen_bind_of_sealed hs _) (by rw [pushInt, hopen]; rfl)
  | accessField access field =>
      exact refused_silently (requireOpen_bind_of_sealed hs _) (by rw [accessField, hopen]; rfl)
  | defaultValue name =>
      exact refused_silently (requireOpen_bind_of_sealed hs _) (by rw [defaultValue, hopen]; rfl)
  | invokeStatic method =>
      exact refused_silently (requireOpen_bind_of_sealed hs _) (by rw [invokeStatic, hopen]; rfl)
  | returnVoid => exact refused_silently (requireOpen_bind_of_sealed hs _) (by rw [returnVoid, hopen]; rfl)
  | returnValue =>
      exact refused_silently (requireOpen_bind_of_sealed hs _) (by rw [returnValue, hopen]; rfl)
  | jump target => exact refused_silently (requireOpen_bind_of_sealed hs _) (by rw [jump, close, hopen]; rfl)
  | branch condition ifTrue ifFalse =>
      exact refused_silently (requireOpen_bind_of_sealed hs _) (by rw [branch, hopen]; rfl)

theorem Covered.mirrors (hc : b.Covered) (command : Command) :
    Mirrors answered b (perform command) (b.apply command) := by
  cases ho : b.ending with
  | none => exact perform_mirrors_of_open ho hc command
  | some ending =>
      intro pool
      obtain ⟨e, hp, ha⟩ := refused_of_sealed (b := b) (by rw [isSealed, ho]; rfl) command pool
      rw [hp, ha]
      rfl

theorem covered_start (id : BlockId) (entry : Frame) (returns : Option VType) :
    (start id entry returns).Covered := by
  intro _
  simp [start, Maxima.cover, Maxima.join]

theorem covered_advance (b : Block) (frame : Frame) : (b.advance frame).Covered := by
  intro _
  simp [advance, Maxima.cover, Maxima.join]

theorem Step.covered (h : b.Step b') : b'.Covered := by
  cases h with
  | reserve _ _ => exact covered_advance b _
  | emit _ _ _ => exact covered_advance b _
  | returnVoid _ _ => exact fun h => by cases h
  | returnValue _ _ _ _ _ => exact fun h => by cases h
  | jump _ => exact fun h => by cases h
  | branch _ _ => exact fun h => by cases h

/-- A block that comes about by commands, whether they succeed or not. -/
inductive Made : Block → Prop
  | start (id : BlockId) (entry : Frame) (returns : Option VType) : Made (start id entry returns)
  | edit {b : Block} (command : Command) (pool : Pool) : Made b →
      Made (perform command (b, pool)).2.1

theorem Made.covered (h : b.Made) : b.Covered := by
  induction h with
  | start id entry returns => exact covered_start id entry returns
  | @edit b command pool _ ih =>
      rw [ih.mirrors command pool]
      rcases ha : b.apply command pool with ⟨e | ⟨answer, b'⟩, pool'⟩
      · exact ih
      · exact (apply_step ha).covered

end Block

/-! ## Methods and classes -/

namespace MethodDraft

open Editing

variable {m : MethodDraft}

theorem Reachable.covered (h : m.Reachable) : m.Numbered Block.Covered :=
  h.numbered Block.covered_start fun _ _ hs _ => hs.covered

theorem Reachable.mirrors (h : m.Reachable) (place : BlockId) (command : Command) :
    Mirrors answered m (onBlock place (Block.perform command)) (m.apply place command) := by
  intro pool
  cases hb : m.block? place with
  | error e =>
      simp only [onBlock, MethodDraft.apply, hb]
      rfl
  | ok b =>
      have hat := block?_eq_ok hb
      obtain ⟨hid, hc⟩ := h.covered _ _ hat
      have hrun : m.apply place command pool =
          (b.apply command >>= fun r => pure (r.1, m.setBlock r.2)) pool := by
        rw [MethodDraft.apply, hb]
        rfl
      simp only [onBlock, hb, hc.mirrors command pool, hrun, bind_apply]
      rcases ha : b.apply command pool with ⟨e | ⟨answer, b'⟩, pool'⟩
      · have hsame : m.blocks.setIfInBounds place.index b = m.blocks := by
          grind
        simp only [settle, hsame]
      · have hnext : b'.id.index = place.index := by rw [(Block.apply_step ha).id, hid]
        rw [← hnext]
        rfl

theorem complete_mirrors (m : MethodDraft) : Mirrors answered m complete m.finish := by
  rw [complete, finish]
  refine .current ?_
  split
  · exact fun _ => rfl
  · exact .check fun _ => .onPool fun _ => .check fun _ => .onPool fun _ _ => rfl

end MethodDraft

namespace ClassDraft

open Editing

variable (d : ClassDraft)

theorem attach_mirrors {α : Type} (format : BodyFormat α) (body : α) :
    Mirrors whole d (attach format body) (d.addAttribute format body) :=
  .onPool fun _ _ => rfl

theorem declareField_mirrors (flags : Flags .ofField) (name descriptor : String) :
    Mirrors whole d (declareField flags name descriptor) (d.addField flags name descriptor) := by
  rw [declareField, addField]
  cases (FieldType.parse descriptor).isOk with
  | false => exact fun _ => rfl
  | true =>
      simp only [if_true]
      exact .onPool fun _ => .onPool fun _ _ => rfl

theorem declareMethod_mirrors (flags : Flags .ofMethod) (name descriptor : String)
    (attributes : List Attribute) :
    Mirrors whole d (declareMethod flags name descriptor attributes)
      (d.addMethod flags name descriptor attributes) := by
  rw [declareMethod, addMethod]
  cases (MethodType.parse descriptor).isOk with
  | false => exact fun _ => rfl
  | true =>
      simp only [if_true]
      exact .onPool fun _ => .onPool fun _ _ => rfl

end ClassDraft

/-! ## Failures -/

namespace Editing

variable {σ α ρ : Type} {v v' : σ} {start pool pool' : Pool}

/-- The value is as it was. The pool may hold more, and what an index stood for it stands for still. -/
structure Untouched (v : σ) (pool : Pool) (v' : σ) (pool' : Pool) : Prop where
  value : v' = v
  added : pool.Extends pool'
  kept : ∀ (kind : IndexKind) (i : Index kind) c, pool.constants.lookup? i = some c →
    pool'.constants.lookup? i = some c

theorem Mirrors.untouched {out : ρ → α × σ} {x : Editing σ α} {y : Interning ρ} {e : Error}
    {R : Error → Prop} (h : Mirrors out v x y) (hy : Interning.Interns R y) (hs : pool.Sound)
    (hx : x (v, pool) = (.error e, (v', pool'))) : Untouched v pool v' pool' := by
  obtain ⟨rfl, he⟩ := h.of_error hx
  have hg := hy.grows hs
  rw [he] at hg
  exact ⟨rfl, hg.added, fun _ _ _ hc => hg.added.lookup? hs hc⟩

theorem interns_addField (d : ClassDraft) (flags : Flags .ofField) (name descriptor : String) :
    Interning.Interns (fun _ => True) (d.addField flags name descriptor) := by
  unfold ClassDraft.addField
  split
  · exact .bind (Pool.interns_internAs _ _) fun _ => .bind (Pool.interns_internAs _ _) fun _ => .pure _
  · exact .ofExcept (x := .error _) fun _ _ => trivial

theorem interns_addMethod (d : ClassDraft) (flags : Flags .ofMethod) (name descriptor : String)
    (attributes : List Attribute) :
    Interning.Interns (fun _ => True) (d.addMethod flags name descriptor attributes) := by
  unfold ClassDraft.addMethod
  split
  · exact .bind (Pool.interns_internAs _ _) fun _ => .bind (Pool.interns_internAs _ _) fun _ => .pure _
  · exact .ofExcept (x := .error _) fun _ _ => trivial

/-- Whatever the state of a block, a method or a class, an operation that fails changes nothing but adds
to the pool at most; a sealed block refuses every command and does not add to the pool either. -/
theorem failures_change_nothing (h₀ : start.Origin) (h : start.Served pool) :
    (∀ b : Block, b.Made → ∀ command e b' pool',
      Block.perform command (b, pool) = (.error e, (b', pool')) → Untouched b pool b' pool') ∧
    (∀ b : Block, b.isSealed → ∀ command, ∃ e,
      Block.perform command (b, pool) = (.error e, (b, pool))) ∧
    (∀ (m : MethodDraft) e m' pool', MethodDraft.complete (m, pool) = (.error e, (m', pool')) →
      Untouched m pool m' pool') ∧
    (∀ (d : ClassDraft) flags name descriptor e d' pool',
      ClassDraft.declareField flags name descriptor (d, pool) = (.error e, (d', pool')) →
        Untouched d pool d' pool') ∧
    ∀ (d : ClassDraft) flags name descriptor attributes e d' pool',
      ClassDraft.declareMethod flags name descriptor attributes (d, pool) = (.error e, (d', pool')) →
        Untouched d pool d' pool' := by
  have hs := (h.grows h₀.sound).sound
  refine ⟨?_, ?_, ?_, ?_, ?_⟩
  · intro b hb command e b' pool' hx
    exact (hb.covered.mirrors command).untouched (b.interns_apply command) hs hx
  · intro b hb command
    obtain ⟨e, he, -⟩ := Block.refused_of_sealed hb command pool
    exact ⟨e, he⟩
  · intro m e m' pool' hx
    exact m.complete_mirrors.untouched m.interns_finish hs hx
  · intro d flags name descriptor e d' pool' hx
    exact (d.declareField_mirrors flags name descriptor).untouched (interns_addField ..) hs hx
  · intro d flags name descriptor attributes e d' pool' hx
    exact (d.declareMethod_mirrors flags name descriptor attributes).untouched (interns_addMethod ..) hs hx

/-- A block with one local that no instruction moves; two integers are on its stack. -/
def stuck : Block := .start .entry (.ofLists [.top] [.integer, .integer]) none

theorem stuck_refuses_put : ∃ e b' pool', Block.perform
    (.accessField .putStatic ⟨"A", "x", .base .float⟩) (stuck, Pool.empty) = (.error e, (b', pool')) := by
  have hc : stuck.Covered := Block.covered_start _ _ _
  rw [hc.mirrors _ _]
  rcases ha : stuck.apply (.accessField .putStatic ⟨"A", "x", .base .float⟩) Pool.empty with
    ⟨e | ⟨answer, b⟩, pool'⟩
  · exact ⟨e, stuck, pool', rfl⟩
  · simp only [Block.apply, Block.silent_eq_ok, Block.accessField, Interning.bind_eq_ok,
      Interning.ofExcept_eq_ok, Pool.typeOf, Interning.pure_eq_ok] at ha
    obtain ⟨-, _, _, -, _, _, -, _, _, -, t, _, ⟨rfl, rfl⟩, ha, -⟩ := ha
    cases ha

/-- A load that looks its local up before it fails, a field access that adds its constants to the pool
before it finds an operand of another type, and a command for a block that a comparison has sealed. -/
theorem failures_change_nothing_stuck :
    Pool.empty.Origin ∧ stuck.Made ∧
      (∃ e b' pool', Block.perform (.load 0) (stuck, Pool.empty) = (.error e, (b', pool')) ∧
        Untouched stuck Pool.empty b' pool') ∧
      (∃ e b' pool', Block.perform (.accessField .putStatic ⟨"A", "x", .base .float⟩)
          (stuck, Pool.empty) = (.error e, (b', pool')) ∧ Untouched stuck Pool.empty b' pool') ∧
      ∃ b pool', Block.perform (.branch .le ⟨1⟩ ⟨2⟩) (stuck, Pool.empty) = (.ok none, (b, pool')) ∧
        ∃ e, Block.perform .returnVoid (b, Pool.empty) = (.error e, (b, Pool.empty)) := by
  have hmade : stuck.Made := .start _ _ _
  obtain ⟨hblock, hsealed, -⟩ := failures_change_nothing .empty (@Pool.Served.refl Pool.empty)
  refine ⟨.empty, hmade, ?_, ?_, ?_⟩
  · have hload : ∃ e b' pool', Block.perform (.load 0) (stuck, Pool.empty) = (.error e, (b', pool')) :=
      ⟨_, _, _, rfl⟩
    obtain ⟨e, b', pool', hx⟩ := hload
    exact ⟨e, b', pool', hx, hblock _ hmade _ _ _ _ hx⟩
  · obtain ⟨e, b', pool', hx⟩ := stuck_refuses_put
    exact ⟨e, b', pool', hx, hblock _ hmade _ _ _ _ hx⟩
  · exact ⟨_, _, rfl, hsealed _ rfl _⟩

end Editing

end ClassForge
