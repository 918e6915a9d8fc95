import ClassForge.Proofs.Assembly.Listing
import Mathlib.Data.List.Chain

/-!
# The walk over the blocks of a method

The walk that lays out a method, seen as steps that extend a listing. What one step keeps holds of
the listing at the end: every reachable block is listed once, and control leaves each block as its
ending says.
-/

namespace ClassForge

/-- The blocks that control can come to. -/
inductive Reaches (blocks : Array Block) : BlockId → Prop
  | entry : Reaches blocks .entry
  | edge {id b ending t} : Reaches blocks id → blocks[id.index]? = some b →
      b.ending = some ending → t ∈ ending.targets → Reaches blocks t

theorem Block.checkEdge_eq_ok {b : Block} {blocks : Array Block} {t : BlockId}
    (h : b.checkEdge blocks t = .ok ()) :
    ∃ b', blocks[t.index]? = some b' ∧ b.frame.assignable b'.entry = true := by
  unfold Block.checkEdge at h
  split at h
  next => cases h
  next b' hb =>
    split at h
    next ha => exact ⟨b', hb, ha⟩
    next => cases h

/-- The tasks and the pieces that a block's ending asks for. -/
inductive Block.Departs (blocks : Array Block) (b : Block) : List Task → List Piece → Prop
  | ret {opcode} : b.ending = some (.ret opcode) → Departs blocks b [] [.ret opcode]
  | jump {t} : b.ending = some (.jump t) → b.checkEdge blocks t = .ok () →
      Departs blocks b [.reach t] []
  | branch {t f} : b.ending = some (.branch .le t f) → b.checkEdge blocks t = .ok () →
      b.checkEdge blocks f = .ok () → Departs blocks b [.reach t, .placeIfNew f] [.compare f]

theorem Block.Departs.targets_eq {blocks : Array Block} {b : Block} {more : List Task}
    {exit : List Piece} (h : b.Departs blocks more exit) :
    ∃ ending, b.ending = some ending ∧ more.map Task.block = ending.targets := by
  cases h with
  | ret he => exact ⟨_, he, rfl⟩
  | jump he _ => exact ⟨_, he, rfl⟩
  | branch he _ _ => exact ⟨_, he, rfl⟩

theorem Block.Departs.checkEdge_eq_ok {blocks : Array Block} {b : Block} {more : List Task}
    {exit : List Piece} {ending : Ending} {t : BlockId} (h : b.Departs blocks more exit)
    (he : b.ending = some ending) (ht : t ∈ ending.targets) : b.checkEdge blocks t = .ok () := by
  cases h with
  | ret he' =>
      rw [he'] at he
      cases he
      cases ht
  | jump he' hc =>
      rw [he'] at he
      cases he
      rwa [List.mem_singleton.1 ht]
  | branch he' hc hc' =>
      rw [he'] at he
      cases he
      rcases List.mem_cons.1 ht with rfl | ht
      · exact hc
      · rwa [List.mem_singleton.1 ht]

/-- Only a branch queues a block, and it names that block. -/
theorem Block.Departs.queued {blocks : Array Block} {b : Block} {more : List Task}
    {exit : List Piece} {f : BlockId} (h : b.Departs blocks more exit)
    (hf : Task.placeIfNew f ∈ more) (id : BlockId) :
    f ∈ Listing.targets [(⟨id, b, exit⟩ : Stretch)] := by
  cases h with
  | ret _ => cases hf
  | jump _ _ => simp at hf
  | branch _ _ _ =>
      obtain rfl : f = _ := by simpa using hf
      simp [Listing.targets, Listing.pieces_singleton, Stretch.pieces, Piece.target?]

namespace Walk

inductive Step (blocks : Array Block) : List Task → Listing → List Task → Listing → Prop
  | skip {f tasks l} : f ∈ l.ids → Step blocks (.placeIfNew f :: tasks) l tasks l
  | goto {t tasks s} {l l₀ : Listing} : l = l₀ ++ [s] → t ∈ l.ids →
      Step blocks (.reach t :: tasks) l tasks (l₀ ++ [{ s with exit := s.exit ++ [.goto t] }])
  | place {task : Task} {tasks l b more exit} : task.block ∉ l.ids →
      blocks[task.block.index]? = some b → b.Departs blocks more exit →
      Step blocks (task :: tasks) l (more ++ tasks) (l ++ [⟨task.block, b, exit⟩])

end Walk

inductive Walk (blocks : Array Block) : List Task → Listing → Listing → Prop
  | done {l} : Walk blocks [] l l
  | step {tasks l tasks' l' l''} : Walk.Step blocks tasks l tasks' l' → Walk blocks tasks' l' l'' →
      Walk blocks tasks l l''

namespace Walk

variable {blocks : Array Block} {tasks tasks' : List Task} {l l' : Listing}

theorem invariant {P : List Task → Listing → Prop}
    (hstep : ∀ {tasks l tasks' l'}, Step blocks tasks l tasks' l' → P tasks l → P tasks' l')
    (h : Walk blocks tasks l l') (h0 : P tasks l) : P [] l' := by
  induction h with
  | done => exact h0
  | step hs _ ih => exact ih (hstep hs h0)

/-- Every stretch behind a step was there before, with fewer pieces perhaps, or holds the block of the
task. -/
theorem Step.mem_cases (h : Step blocks tasks l tasks' l') {s : Stretch} (hs : s ∈ l') :
    (∃ r ∈ l, r.id = s.id ∧ r.block = s.block) ∨
      blocks[s.id.index]? = some s.block ∧
        ∃ more rest, tasks' = more ++ rest ∧ s.block.Departs blocks more s.exit := by
  cases h with
  | skip _ => exact Or.inl ⟨s, hs, rfl, rfl⟩
  | @goto _ _ r _ l₀ he _ =>
      subst he
      rcases List.mem_append.1 hs with hs | hs
      · exact Or.inl ⟨s, List.mem_append_left _ hs, rfl, rfl⟩
      · obtain rfl := List.mem_singleton.1 hs
        exact Or.inl ⟨r, List.mem_append_right _ (List.mem_singleton_self r), rfl, rfl⟩
  | place _ hb hd =>
      rcases List.mem_append.1 hs with hs | hs
      · exact Or.inl ⟨s, hs, rfl, rfl⟩
      · obtain rfl := List.mem_singleton.1 hs
        exact Or.inr ⟨hb, _, _, rfl, hd⟩

/-! ## Every edge was checked -/

def Checked (blocks : Array Block) (l : Listing) : Prop :=
  ∀ s ∈ l, ∀ ending, s.block.ending = some ending → ∀ t ∈ ending.targets,
    s.block.checkEdge blocks t = .ok ()

theorem Step.checked (h : Step blocks tasks l tasks' l') (hl : Checked blocks l) :
    Checked blocks l' := by
  intro s hs ending he t ht
  rcases h.mem_cases hs with ⟨r, hr, -, hb⟩ | ⟨-, _, _, -, hd⟩
  · rw [← hb] at he ⊢
    exact hl r hr ending he t ht
  · exact hd.checkEdge_eq_ok he ht

/-! ## Each reachable block is listed once -/

/-- The listed blocks are blocks of the method, each of them once. -/
structure Proper (blocks : Array Block) (l : Listing) : Prop where
  nodup : l.ids.Nodup
  block : ∀ s ∈ l, blocks[s.id.index]? = some s.block

theorem Step.nodup (h : Step blocks tasks l tasks' l') (hl : l.ids.Nodup) : l'.ids.Nodup := by
  cases h with
  | skip _ => exact hl
  | goto he _ =>
      subst he
      rwa [Listing.ids_append] at hl ⊢
  | place hn _ _ =>
      rw [Listing.ids_append]
      refine List.nodup_append.2 ⟨hl, by simp [Listing.ids], ?_⟩
      intro id hid id' hid' heq
      obtain rfl := List.mem_singleton.1 hid'
      subst heq
      exact hn hid

theorem Step.proper (h : Step blocks tasks l tasks' l') (hl : Proper blocks l) :
    Proper blocks l' := by
  refine ⟨h.nodup hl.nodup, fun s hs => ?_⟩
  rcases h.mem_cases hs with ⟨r, hr, hid, hb⟩ | ⟨hb, -⟩
  · rw [← hid, ← hb]
    exact hl.block r hr
  · exact hb

/-- Everything that is listed or waits to be placed can be reached. -/
structure Sound (blocks : Array Block) (tasks : List Task) (l : Listing) : Prop where
  listed : ∀ id ∈ l.ids, Reaches blocks id
  queued : ∀ task ∈ tasks, Reaches blocks task.block

theorem Step.sound (h : Step blocks tasks l tasks' l') (hl : Sound blocks tasks l) :
    Sound blocks tasks' l' := by
  have hrest : ∀ {task rest}, tasks = task :: rest → ∀ r ∈ rest, Reaches blocks r.block :=
    fun ht r hr => hl.queued r (by rw [ht]; exact List.mem_cons_of_mem _ hr)
  cases h with
  | skip _ => exact ⟨hl.listed, hrest rfl⟩
  | goto he _ =>
      subst he
      refine ⟨?_, hrest rfl⟩
      have := hl.listed
      rwa [Listing.ids_append] at this ⊢
  | place _ hb hd =>
      have hid := hl.queued _ List.mem_cons_self
      refine ⟨?_, ?_⟩
      · intro id hi
        rw [Listing.ids_append] at hi
        rcases List.mem_append.1 hi with hi | hi
        · exact hl.listed id hi
        · obtain rfl := List.mem_singleton.1 hi
          exact hid
      · intro r hr
        rcases List.mem_append.1 hr with hr | hr
        · obtain ⟨ending, he, ht⟩ := hd.targets_eq
          exact .edge hid hb he (by rw [← ht]; exact List.mem_map_of_mem hr)
        · exact hrest rfl r hr

/-- The block is listed or waits to be placed. -/
def Known (tasks : List Task) (l : Listing) (t : BlockId) : Prop :=
  t ∈ l.ids ∨ t ∈ tasks.map Task.block

theorem Step.known (h : Step blocks tasks l tasks' l') {t : BlockId} (ht : Known tasks l t) :
    Known tasks' l' t := by
  cases h with
  | skip hf =>
      -- a skipped block is listed, so nothing is lost with its task
      rcases ht with ht | ht
      · exact Or.inl ht
      · rcases List.mem_cons.1 ht with rfl | ht
        · exact Or.inl hf
        · exact Or.inr ht
  | goto he hg =>
      subst he
      rw [Known, Listing.ids_append] at ht ⊢
      rcases ht with ht | ht
      · exact Or.inl ht
      · rcases List.mem_cons.1 ht with rfl | ht
        · rw [Listing.ids_append] at hg
          exact Or.inl hg
        · exact Or.inr ht
  | place _ _ _ =>
      rw [Known, Listing.ids_append, List.map_append]
      rcases ht with ht | ht
      · exact Or.inl (List.mem_append_left _ ht)
      · rcases List.mem_cons.1 ht with rfl | ht
        · exact Or.inl (List.mem_append_right _ (List.mem_singleton_self _))
        · exact Or.inr (List.mem_append_right _ ht)

/-- The blocks that control goes to from a listed block are known. -/
structure Covered (tasks : List Task) (l : Listing) : Prop where
  entry : Known tasks l .entry
  edge : ∀ s ∈ l, ∀ ending, s.block.ending = some ending → ∀ t ∈ ending.targets, Known tasks l t

theorem Step.covered (h : Step blocks tasks l tasks' l') (hl : Covered tasks l) :
    Covered tasks' l' := by
  refine ⟨h.known hl.entry, fun s hs ending he t ht => ?_⟩
  rcases h.mem_cases hs with ⟨r, hr, -, hb⟩ | ⟨-, more, rest, rfl, hd⟩
  · rw [← hb] at he
    exact h.known (hl.edge r hr ending he t ht)
  · obtain ⟨ending', he', hm⟩ := hd.targets_eq
    obtain rfl := Option.some.inj (he.symm.trans he')
    rw [← hm] at ht
    exact Or.inr (by rw [List.map_append]; exact List.mem_append_left _ ht)

theorem mem_ids_iff (hp : Proper blocks l) (hs : Sound blocks [] l) (hc : Covered [] l)
    {id : BlockId} : id ∈ l.ids ↔ Reaches blocks id := by
  refine ⟨hs.listed id, fun h => ?_⟩
  induction h with
  | entry => simpa [Known] using hc.entry
  | @edge id b ending t _ hb he ht ih =>
      obtain ⟨s, hs, rfl⟩ := List.mem_map.1 ih
      obtain rfl := Option.some.inj ((hp.block s hs).symm.trans hb)
      simpa [Known] using hc.edge s hs ending he t ht

/-! ## Control leaves each block as its ending says -/

/-- The pieces of the stretch are those that lead to `t` if `t` is laid down behind it. -/
inductive Opens (s : Stretch) (t : BlockId) : Prop
  | jump : s.block.ending = some (.jump t) → s.exit = [] → Opens s t
  | branch {f} : s.block.ending = some (.branch .le t f) → s.exit = [.compare f] → Opens s t

theorem Opens.closes {s : Stretch} {t : BlockId} (h : Opens s t) : s.Closes (some t) := by
  cases h with
  | jump he hx => exact ⟨_, he, by rw [hx]; exact .fall rfl⟩
  | branch he hx => exact ⟨_, he, by rw [hx]; exact .compareFall rfl⟩

theorem Opens.closes_goto {s : Stretch} {t : BlockId} (h : Opens s t) :
    Stretch.Closes { s with exit := s.exit ++ [.goto t] } none := by
  cases h with
  | jump he hx => exact ⟨_, he, by rw [hx]; exact .goto t⟩
  | branch he hx => exact ⟨_, he, by rw [hx]; exact .compareGoto t _⟩

/-- Only blocks that a comparison jumps to wait behind the first task. -/
def Deferred (tasks : List Task) : Prop := ∀ task ∈ tasks, ∃ f, task = .placeIfNew f

/-- A task that must be carried out stands first, and then the last stretch is still open to its
block; otherwise all stretches are closed. -/
inductive Ready : List Task → Listing → Prop
  | start : Ready [.reach .entry] []
  | awaiting {t : BlockId} {tasks : List Task} {l l₀ : Listing} {s : Stretch} : l = l₀ ++ [s] →
      Listing.Linked (some s.id) l₀ → Opens s t → Deferred tasks → Ready (.reach t :: tasks) l
  | closed {tasks : List Task} {l : Listing} : Listing.Linked none l → Deferred tasks → Ready tasks l

theorem Ready.place {b : Block} {id : BlockId} {more : List Task} {exit : List Piece}
    (hl : Listing.Linked (some id) l) (ht : Deferred tasks) (hd : b.Departs blocks more exit) :
    Ready (more ++ tasks) (l ++ [⟨id, b, exit⟩]) := by
  cases hd with
  | ret he => exact .closed (Listing.linked_snoc.2 ⟨hl, _, he, .ret _⟩) ht
  | jump he _ => exact .awaiting rfl hl (.jump he rfl) ht
  | branch he _ _ =>
      refine .awaiting rfl hl (.branch he rfl) ?_
      intro task hm
      rcases List.mem_cons.1 hm with rfl | hm
      · exact ⟨_, rfl⟩
      · exact ht task hm

theorem Step.ready (h : Step blocks tasks l tasks' l') (hr : Ready tasks l) : Ready tasks' l' := by
  cases hr with
  | start =>
      cases h with
      | goto he _ => simp at he
      | place hn hb hd => exact Ready.place (l := []) trivial (by simp [Deferred]) hd
  | awaiting he hl ho ht =>
      cases h with
      | goto he' _ =>
          obtain ⟨rfl, hs⟩ := List.append_inj' (he.symm.trans he') rfl
          obtain rfl := List.singleton_inj.1 hs
          exact .closed (Listing.linked_snoc.2 ⟨hl, ho.closes_goto⟩) ht
      | place hn hb hd =>
          subst he
          exact Ready.place (Listing.linked_snoc.2 ⟨hl, ho.closes⟩) ht hd
  | closed hl ht =>
      have hrest : ∀ {task rest}, tasks = task :: rest → Deferred rest :=
        fun he r hr => ht r (by rw [he]; exact List.mem_cons_of_mem _ hr)
      cases h with
      | skip _ => exact .closed hl (hrest rfl)
      | goto _ _ =>
          obtain ⟨f, hf⟩ := ht _ List.mem_cons_self
          cases hf
      | place _ _ hd => exact Ready.place hl.of_none (hrest rfl) hd

theorem Ready.linked (h : Ready [] l) : Listing.Linked none l := by
  cases h with
  | closed hl _ => exact hl

def StartsAtEntry (tasks : List Task) (l : Listing) : Prop :=
  l = [] ∧ tasks = [.reach .entry] ∨ l.head?.map Stretch.id = some .entry

theorem Step.startsAtEntry (h : Step blocks tasks l tasks' l') (hl : StartsAtEntry tasks l) :
    StartsAtEntry tasks' l' := by
  rcases hl with ⟨rfl, rfl⟩ | hl
  · cases h with
    | goto he _ => simp at he
    | place _ _ _ => exact Or.inr rfl
  · have hsnoc : ∀ s, (l ++ [s]).head?.map Stretch.id = some .entry := by
      intro s
      cases l with
      | nil => cases hl
      | cons r l => exact hl
    cases h with
    | skip _ => exact Or.inr hl
    | @goto t _ s _ l₀ he _ =>
        subst he
        cases l₀ with
        | nil => exact Or.inr hl
        | cons r l₀ => exact Or.inr hl
    | place _ _ _ => exact Or.inr (hsnoc _)

/-! ## Control does not run on into a block that nothing jumps to -/

def Continues (s : Stretch) : Prop := s.exit = [] ∨ ∃ f, s.exit = [.compare f]

theorem Opens.continues {s : Stretch} {t : BlockId} (h : Opens s t) : Continues s := by
  cases h with
  | jump _ hx => exact Or.inl hx
  | branch _ hx => exact Or.inr ⟨_, hx⟩

/-- A block behind one that control does not run on from is jumped to, and so is every block that
waits for its place without being needed right here. -/
structure Entered (tasks : List Task) (l : Listing) : Prop where
  queued : ∀ f, .placeIfNew f ∈ tasks → f ∈ l.targets
  listed : l.IsChain fun s s' => Continues s ∨ s'.id ∈ l.targets

theorem Step.targets_subset (h : Step blocks tasks l tasks' l') : l.targets ⊆ l'.targets := by
  cases h with
  | skip _ => exact List.Subset.refl _
  | goto he _ =>
      subst he
      intro id hid
      simp only [Listing.targets_append, List.mem_append] at hid ⊢
      refine hid.imp_right fun hid => ?_
      simp only [Listing.targets, Listing.pieces_singleton, Stretch.pieces] at hid ⊢
      rw [← List.cons_append, List.filterMap_append]
      exact List.mem_append_left _ hid
  | place _ _ _ =>
      rw [Listing.targets_append]
      exact List.subset_append_left _ _

theorem Step.queued (h : Step blocks tasks l tasks' l')
    (hl : ∀ f, Task.placeIfNew f ∈ tasks → f ∈ l.targets) {f : BlockId}
    (hf : Task.placeIfNew f ∈ tasks') : f ∈ l'.targets := by
  have hsub := h.targets_subset
  cases h with
  | skip _ => exact hsub (hl f (List.mem_cons_of_mem _ hf))
  | goto _ _ => exact hsub (hl f (List.mem_cons_of_mem _ hf))
  | place _ _ hd =>
      rcases List.mem_append.1 hf with hf | hf
      · rw [Listing.targets_append]
        exact List.mem_append_right _ (hd.queued hf _)
      · exact hsub (hl f (List.mem_cons_of_mem _ hf))

/-- The task at the head places its block where control falls into it, or a branch names it. -/
theorem Ready.entered {task : Task} (hr : Ready (task :: tasks) l)
    (hl : Entered (task :: tasks) l) {s : Stretch} (hs : s ∈ l.getLast?) :
    Continues s ∨ task.block ∈ l.targets := by
  cases task with
  | reach t =>
      cases hr with
      | start => simp at hs
      | awaiting he _ ho _ =>
          subst he
          obtain rfl : _ = s := by simpa using hs
          exact Or.inl ho.continues
      | closed _ ht =>
          obtain ⟨f, hf⟩ := ht _ List.mem_cons_self
          cases hf
  | placeIfNew f => exact Or.inr (hl.queued f List.mem_cons_self)

theorem Step.entered (h : Step blocks tasks l tasks' l') (hr : Ready tasks l)
    (hl : Entered tasks l) : Entered tasks' l' := by
  refine ⟨fun f hf => h.queued hl.queued hf, ?_⟩
  have hsub := h.targets_subset
  cases h with
  | skip _ => exact hl.listed
  | goto he _ =>
      subst he
      have hc := hl.listed.imp fun {a b} hab => hab.imp_right (hsub (a := b.id))
      rw [List.isChain_append] at hc ⊢
      exact ⟨hc.1, by simp, by simpa using hc.2.2⟩
  | @place task _ _ b _ exit _ _ _ =>
      rw [List.isChain_append]
      refine ⟨hl.listed.imp fun {a b} hab => hab.imp_right (hsub (a := b.id)), by simp, ?_⟩
      intro s hs s' hs'
      obtain rfl : (⟨task.block, b, exit⟩ : Stretch) = s' := by simpa using hs'
      exact (hr.entered hl hs).imp_right (hsub (a := task.block))

/-! ## The listing at the end -/

/-- What the walk from the entry block ends with. -/
structure Complete (blocks : Array Block) (l : Listing) : Prop where
  proper : Proper blocks l
  mem_iff : ∀ id, id ∈ l.ids ↔ Reaches blocks id
  linked : Listing.Linked none l
  entry : l.head?.map Stretch.id = some .entry
  entered : l.IsChain fun s s' => Continues s ∨ s'.id ∈ l.targets
  checked : Checked blocks l

theorem complete (h : Walk blocks [.reach .entry] [] l) : Complete blocks l := by
  have hp : Proper blocks l :=
    h.invariant (P := fun _ l => Proper blocks l) Step.proper ⟨List.nodup_nil, by simp⟩
  have hs : Sound blocks [] l :=
    h.invariant Step.sound ⟨by simp [Listing.ids], by simpa [Task.block] using Reaches.entry⟩
  have hc : Covered [] l :=
    h.invariant Step.covered ⟨by simp [Known, Task.block], by simp⟩
  have hre : Ready [] l ∧ Entered [] l :=
    h.invariant (P := fun tasks l => Ready tasks l ∧ Entered tasks l)
      (fun hs hl => ⟨hs.ready hl.1, hs.entered hl.1 hl.2⟩) ⟨.start, ⟨by simp, by simp⟩⟩
  have hst : StartsAtEntry [] l := h.invariant Step.startsAtEntry (Or.inl ⟨rfl, rfl⟩)
  have hch : Checked blocks l :=
    h.invariant (P := fun _ l => Checked blocks l) Step.checked fun s hs => by cases hs
  refine ⟨hp, fun id => mem_ids_iff hp hs hc, hre.1.linked, ?_, hre.2.listed, hch⟩
  rcases hst with ⟨_, h⟩ | h
  · cases h
  · exact h

end Walk

end ClassForge
