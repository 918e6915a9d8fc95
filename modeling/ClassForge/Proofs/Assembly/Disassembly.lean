import ClassForge.Proofs.Assembly.Draft
import ClassForge.Proofs.Assembly.Listing
import ClassForge.Proofs.Bytes
import Mathlib.Tactic.IntervalCases

/-!
# Reading code back

A disassembler for the instructions that methods are made of, written from the table of opcodes. It
reads back what `Instruction.encode` writes, so that code is one sequence of instructions and no other.
-/

namespace ClassForge

/-- An instruction of a method, jumps and returns included. -/
inductive Op where
  | plain (i : Instruction)
  | ret (opcode : UInt8)
  | goto (distance : Int16)
  /-- Jumps if the value below the top is greater. -/
  | compare (distance : Int16)
  deriving DecidableEq, Repr

namespace Op

def encode : Op → List UInt8
  | plain i => i.encode
  | ret opcode => [opcode]
  | goto v => 0xa7 :: Bytes.u16 v.toUInt16
  | compare v => 0xa3 :: Bytes.u16 v.toUInt16

def distance? : Op → Option Int16
  | goto v | compare v => some v
  | plain _ | ret _ => none

/-! ## The table of opcodes -/

/-- What an opcode stands for, and what follows it. -/
inductive Format where
  | alone (op : Op)
  | byte (op : UInt8 → Op)
  | short (op : UInt16 → Op)
  /-- The opcode of a move and its slot in 16 bits. -/
  | wide

def banks : List Bank := [.int, .long, .float, .double, .reference]

def move? (n : Nat) : Option (UInt16 → Instruction) :=
  if 0x15 ≤ n ∧ n ≤ 0x19 then banks[n - 0x15]?.map .load
  else if 0x36 ≤ n ∧ n ≤ 0x3a then banks[n - 0x36]?.map .store
  else none

/-- Moves of the slots 0 to 3. -/
def shortMove? (n : Nat) : Option Instruction :=
  if 0x1a ≤ n ∧ n ≤ 0x2d then
    banks[(n - 0x1a) / 4]?.map fun bank => .load bank (UInt16.ofNat ((n - 0x1a) % 4))
  else if 0x3b ≤ n ∧ n ≤ 0x4e then
    banks[(n - 0x3b) / 4]?.map fun bank => .store bank (UInt16.ofNat ((n - 0x3b) % 4))
  else none

/-- Operations on numbers: the first five exist for all kinds, the bitwise ones for two. -/
def numeric? (n : Nat) : Option Instruction :=
  if 0x60 ≤ n ∧ n ≤ 0x73 then do
    let op ← Arithmetic.all[(n - 0x60) / 4]?
    let kind ← NumericKind.all[(n - 0x60) % 4]?
    some (.arithmetic op kind)
  else if 0x74 ≤ n ∧ n ≤ 0x77 then NumericKind.all[n - 0x74]?.map .negate
  else if 0x78 ≤ n ∧ n ≤ 0x83 then do
    let op ← Arithmetic.all[5 + (n - 0x78) / 2]?
    let kind ← NumericKind.all[(n - 0x78) % 2]?
    some (.arithmetic op kind)
  else none

def format? (n : Nat) : Option Format :=
  match n with
  | 0x10 => some (.byte fun v => plain (.bipush v.toInt8))
  | 0x11 => some (.short fun v => plain (.sipush v.toInt16))
  | 0x12 => some (.byte fun i => plain (.ldc i))
  | 0x13 => some (.short fun i => plain (.ldcWide i))
  | 0x57 => some (.alone (plain .pop))
  | 0x58 => some (.alone (plain .pop2))
  | 0x59 => some (.alone (plain .dup))
  | 0x5c => some (.alone (plain .dup2))
  | 0xa3 => some (.short fun v => compare v.toInt16)
  | 0xa7 => some (.short fun v => goto v.toInt16)
  | 0xb2 => some (.short fun i => plain (.field .getStatic ⟨i⟩))
  | 0xb3 => some (.short fun i => plain (.field .putStatic ⟨i⟩))
  | 0xb4 => some (.short fun i => plain (.field .getField ⟨i⟩))
  | 0xb5 => some (.short fun i => plain (.field .putField ⟨i⟩))
  | 0xb8 => some (.short fun i => plain (.invokeStatic ⟨i⟩))
  | 0xc4 => some .wide
  | 0xcb => some (.short fun i => plain (.defaultValue ⟨i⟩))
  | 0xcc => some (.short fun i => plain (.field .withField ⟨i⟩))
  | n =>
    if h : 0x02 ≤ n ∧ n ≤ 0x08 then some (.alone (plain (.iconst ⟨n - 0x02, by omega⟩)))
    else if 0xac ≤ n ∧ n ≤ 0xb1 then some (.alone (ret (UInt8.ofNat n)))
    else
      ((shortMove? n).or (numeric? n)).map (fun i => Format.alone (plain i))
        |>.or ((move? n).map fun move => .byte fun slot => plain (move slot.toUInt16))

def decode? : List UInt8 → Option (Op × List UInt8)
  | [] => none
  | opcode :: bytes =>
    match format? opcode.toNat, bytes with
    | some (.alone op), bytes => some (op, bytes)
    | some (.byte op), a :: bytes => some (op a, bytes)
    | some (.short op), a :: b :: bytes => some (op (UInt16.ofNat (Bytes.value [a, b])), bytes)
    | some .wide, opcode :: a :: b :: bytes =>
      (move? opcode.toNat).map fun move =>
        (plain (move (UInt16.ofNat (Bytes.value [a, b]))), bytes)
    | _, _ => none

theorem length_lt_of_decode? {bytes rest : List UInt8} {op : Op}
    (h : decode? bytes = some (op, rest)) : rest.length < bytes.length := by
  cases bytes with
  | nil => cases h
  | cons opcode bytes =>
      simp only [decode?] at h
      split at h
      · cases h
        exact Nat.lt_succ_self _
      · cases h
        exact Nat.lt_add_of_pos_right (k := 2) (by decide)
      · cases h
        exact Nat.lt_add_of_pos_right (k := 3) (by decide)
      · obtain ⟨move, -, h⟩ := Option.map_eq_some_iff.1 h
        cases h
        exact Nat.lt_add_of_pos_right (k := 4) (by decide)
      · cases h

/-- The instructions with their offsets, the first at offset `n`. -/
def disassemble (n : Nat) (bytes : List UInt8) : Option (List (Nat × Op)) :=
  if bytes = [] then some []
  else
    match _h : decode? bytes with
    | none => none
    | some (op, rest) => (disassemble (n + (bytes.length - rest.length)) rest).map ((n, op) :: ·)
termination_by bytes.length
decreasing_by exact length_lt_of_decode? _h

/-! ## What is written is read back -/

def Defined : Op → Prop
  | plain i => i.Defined
  | ret opcode => isReturnOpcode opcode
  | goto _ | compare _ => True

theorem decode?_alone {opcode : UInt8} {op : Op} (h : format? opcode.toNat = some (.alone op))
    (rest : List UInt8) : decode? (opcode :: rest) = some (op, rest) := by
  simp [decode?, h]

theorem ofNat_value_u16 (v : UInt16) : UInt16.ofNat (Bytes.value (Bytes.u16 v)) = v := by
  have hv : v.toNat % 256 ^ 2 = v.toNat := Nat.mod_eq_of_lt v.toNat_lt
  rw [Bytes.u16, Bytes.value_bigEndian, hv, UInt16.ofNat_toNat]

theorem decode?_byte {opcode : UInt8} {op : UInt8 → Op}
    (h : format? opcode.toNat = some (.byte op)) (a : UInt8) (rest : List UInt8) :
    decode? (opcode :: a :: rest) = some (op a, rest) := by
  simp only [decode?, h]

theorem decode?_short {opcode : UInt8} (op : UInt16 → Op)
    (h : format? opcode.toNat = some (.short op)) (v : UInt16) (rest : List UInt8) :
    decode? (opcode :: (Bytes.u16 v ++ rest)) = some (op v, rest) := by
  have hs : decode? (opcode :: (Bytes.u16 v ++ rest)) =
      some (op (UInt16.ofNat (Bytes.value (Bytes.u16 v))), rest) := by
    simp only [Bytes.u16, Bytes.bigEndian, List.cons_append, List.nil_append, decode?, h]
  rw [hs, ofNat_value_u16]

theorem decode?_wide {opcode : UInt8} {move : UInt16 → Instruction}
    (h : move? opcode.toNat = some move) (slot : UInt16) (rest : List UInt8) :
    decode? (0xc4 :: opcode :: (Bytes.u16 slot ++ rest)) = some (plain (move slot), rest) := by
  have hw : format? (0xc4 : UInt8).toNat = some .wide := rfl
  have hs : decode? (0xc4 :: opcode :: (Bytes.u16 slot ++ rest)) =
      some (plain (move (UInt16.ofNat (Bytes.value (Bytes.u16 slot)))), rest) := by
    simp only [Bytes.u16, Bytes.bigEndian, List.cons_append, List.nil_append, decode?, hw, h,
      Option.map_some]
  rw [hs, ofNat_value_u16]

theorem toUInt16_ofNat {i : UInt16} (h : i.toNat ≤ 255) : (UInt8.ofNat i.toNat).toUInt16 = i := by
  apply UInt16.toNat_inj.1
  rw [UInt8.toNat_toUInt16, UInt8.toNat_ofNat', Nat.mod_eq_of_lt (by omega)]

theorem decode?_move {opcode shortOpcode : Nat} {move : UInt16 → Instruction}
    (hshort : ∀ k < 4, format? (UInt8.ofNat (shortOpcode + k)).toNat =
      some (.alone (plain (move (UInt16.ofNat k)))))
    (hbyte : format? (UInt8.ofNat opcode).toNat = some (.byte fun slot => plain (move slot.toUInt16)))
    (hwide : move? (UInt8.ofNat opcode).toNat = some move) (slot : UInt16) (rest : List UInt8) :
    decode? (Instruction.encodeMove opcode shortOpcode slot ++ rest) =
      some (plain (move slot), rest) := by
  unfold Instruction.encodeMove
  split
  next h =>
    have hf := decode?_alone (hshort slot.toNat (by omega)) rest
    rwa [UInt16.ofNat_toNat] at hf
  next =>
    split
    next h =>
      have hf := decode?_byte hbyte (UInt8.ofNat slot.toNat) rest
      rwa [toUInt16_ofNat h] at hf
    next => exact decode?_wide hwide slot rest

theorem decode?_local {bank : Bank} {slot : UInt16} {i : Instruction}
    (hi : i = .load bank slot ∨ i = .store bank slot) (rest : List UInt8) :
    decode? (i.encode ++ rest) = some (plain i, rest) := by
  rcases hi with rfl | rfl
  all_goals
    refine decode?_move (fun k hk => ?_) ?_ ?_ slot rest
    · cases bank <;> (interval_cases k <;> rfl)
    · cases bank <;> rfl
    · cases bank <;> rfl

theorem decode?_iconst (n : Fin 7) (rest : List UInt8) :
    decode? ((Instruction.iconst n).encode ++ rest) = some (plain (.iconst n), rest) := by
  obtain ⟨n, hn⟩ := n
  interval_cases n <;> rfl

theorem decode?_ret {opcode : UInt8} (h : isReturnOpcode opcode) (rest : List UInt8) :
    decode? (opcode :: rest) = some (ret opcode, rest) := by
  simp only [isReturnOpcode, Bool.and_eq_true, decide_eq_true_eq] at h
  obtain ⟨h₁, h₂⟩ := h
  rw [← UInt8.ofNat_toNat (x := opcode)]
  interval_cases opcode.toNat <;> rfl

/-- The disassembler reads back every instruction that exists. -/
theorem decode?_encode {op : Op} (h : op.Defined) (rest : List UInt8) :
    decode? (op.encode ++ rest) = some (op, rest) := by
  cases op with
  | ret opcode => exact decode?_ret h rest
  | goto v => exact decode?_short (fun v => goto v.toInt16) rfl v.toUInt16 rest
  | compare v => exact decode?_short (fun v => compare v.toInt16) rfl v.toUInt16 rest
  | plain i =>
      cases i with
      | iconst n => exact decode?_iconst n rest
      | bipush v => rfl
      | sipush v => exact decode?_short (fun v => plain (.sipush v.toInt16)) rfl v.toUInt16 rest
      | ldc i => rfl
      | ldcWide i => exact decode?_short (fun i => plain (.ldcWide i)) rfl i rest
      | load bank slot => exact decode?_local (Or.inl rfl) rest
      | store bank slot => exact decode?_local (Or.inr rfl) rest
      | field access i =>
          cases access <;> exact decode?_short (fun i => plain (.field _ ⟨i⟩)) rfl i.val rest
      | invokeStatic i => exact decode?_short (fun i => plain (.invokeStatic ⟨i⟩)) rfl i.val rest
      | defaultValue i => exact decode?_short (fun i => plain (.defaultValue ⟨i⟩)) rfl i.val rest
      | arithmetic op kind => cases op <;> cases kind <;> first | rfl | cases h
      | negate kind => cases kind <;> rfl
      | pop => rfl
      | pop2 => rfl
      | dup => rfl
      | dup2 => rfl

theorem encode_ne_nil {op : Op} (h : op.Defined) : op.encode ≠ [] := by
  intro he
  have hd := decode?_encode h []
  rw [he] at hd
  cases hd

theorem disassemble_nil (n : Nat) : disassemble n [] = some [] := by
  rw [disassemble, if_pos rfl]

theorem disassemble_cons {op : Op} (h : op.Defined) (n : Nat) (rest : List UInt8) :
    disassemble n (op.encode ++ rest) =
      (disassemble (n + op.encode.length) rest).map ((n, op) :: ·) := by
  rw [disassemble, if_neg (List.append_ne_nil_of_left_ne_nil (encode_ne_nil h) rest)]
  split
  next hn =>
    rw [decode?_encode h] at hn
    cases hn
  next op' rest' hs =>
    rw [decode?_encode h] at hs
    cases hs
    rw [List.length_append, Nat.add_sub_cancel]

def placed : Nat → List Op → List (Nat × Op)
  | _, [] => []
  | n, op :: ops => (n, op) :: placed (n + op.encode.length) ops

theorem disassemble_append {ops : List Op} (h : ∀ op ∈ ops, op.Defined) (n : Nat)
    (rest : List UInt8) :
    disassemble n (ops.flatMap encode ++ rest) =
      (disassemble (n + (ops.flatMap encode).length) rest).map (placed n ops ++ ·) := by
  induction ops generalizing n with
  | nil => simp [placed]
  | cons op ops ih =>
      obtain ⟨hop, hops⟩ := List.forall_mem_cons.1 h
      rw [List.flatMap_cons, List.append_assoc, disassemble_cons hop, ih hops, Option.map_map,
        List.length_append, Nat.add_assoc]
      rfl

theorem mem_of_mem_placed {n k : Nat} {ops : List Op} {op : Op} (h : (k, op) ∈ placed n ops) :
    op ∈ ops := by
  induction ops generalizing n with
  | nil => cases h
  | cons op' ops ih =>
      rcases List.mem_cons.1 h with h | h
      · cases h
        exact List.mem_cons_self
      · exact List.mem_cons_of_mem _ (ih h)

end Op

/-! ## The instructions of a listing -/

namespace Piece

def positions : Nat → List Piece → List (Nat × Piece)
  | _, [] => []
  | n, p :: ps => (n, p) :: positions (n + p.placeholder.length) ps

theorem positions_append (n : Nat) (ps qs : List Piece) :
    positions n (ps ++ qs) =
      positions n ps ++ positions (n + (ps.flatMap placeholder).length) qs := by
  induction ps generalizing n with
  | nil => rfl
  | cons p ps ih =>
      simp only [List.cons_append, positions, ih, List.flatMap_cons, List.length_append,
        Nat.add_assoc]

theorem mem_iff_positions {n : Nat} {p : Piece} {ps : List Piece} :
    p ∈ ps ↔ ∃ k, (k, p) ∈ positions n ps := by
  induction ps generalizing n with
  | nil => simp [positions]
  | cons q ps ih =>
      simp only [positions, List.mem_cons, Prod.mk.injEq, exists_or, ih (n := n + q.placeholder.length),
        exists_eq_left]

def Defined : Piece → Prop
  | body b => ∀ i ∈ b.instructions, i.Defined
  | ret opcode => isReturnOpcode opcode
  | goto _ | compare _ => True

/-- The piece at offset `k` is read back as one instruction, which jumps to where its target stands. -/
inductive Reads (o : BlockId → Option Nat) (k : Nat) : Piece → Op → Prop
  | ret (opcode : UInt8) : Reads o k (.ret opcode) (.ret opcode)
  | goto {t : BlockId} {d : Nat} {v : Int16} : o t = some d → (k : Int) + v.toInt = d →
      Reads o k (.goto t) (.goto v)
  | compare {t : BlockId} {d : Nat} {v : Int16} : o t = some d → (k : Int) + v.toInt = d →
      Reads o k (.compare t) (.compare v)

/-- The instructions `ops` are those of the pieces from offset `n` on. -/
structure Disassembles (o : BlockId → Option Nat) (n : Nat) (ps : List Piece)
    (ops : List (Nat × Op)) : Prop where
  sound : ∀ k op, (k, op) ∈ ops →
    (∃ i, op = .plain i) ∨ ∃ p, (k, p) ∈ positions n ps ∧ p.Reads o k op
  complete : ∀ k p, (k, p) ∈ positions n ps →
    (∃ b, p = .body b) ∨ ∃ op, (k, op) ∈ ops ∧ p.Reads o k op
  plain : ∀ k i, (k, .plain i) ∈ ops → ∃ b, .body b ∈ ps ∧ i ∈ b.instructions

theorem Disassembles.body {o : BlockId → Option Nat} {n : Nat} {b : Block} {ps : List Piece}
    {ops is : List (Nat × Op)} (h : Disassembles o (n + b.code.length) ps ops)
    (hi : ∀ k op, (k, op) ∈ is → ∃ i ∈ b.instructions, op = .plain i) :
    Disassembles o n (.body b :: ps) (is ++ ops) := by
  refine ⟨fun k op hk => ?_, fun k p hk => ?_, fun k i hk => ?_⟩
  · rcases List.mem_append.1 hk with hk | hk
    · obtain ⟨i, -, rfl⟩ := hi k op hk
      exact Or.inl ⟨i, rfl⟩
    · refine (h.sound k op hk).imp_right fun ⟨p, hp, hr⟩ => ⟨p, List.mem_cons_of_mem _ hp, hr⟩
  · rcases List.mem_cons.1 hk with hk | hk
    · cases hk
      exact Or.inl ⟨b, rfl⟩
    · exact (h.complete k p hk).imp_right fun ⟨op, ho, hr⟩ => ⟨op, List.mem_append_right _ ho, hr⟩
  · rcases List.mem_append.1 hk with hk | hk
    · obtain ⟨j, hj, hij⟩ := hi k _ hk
      cases hij
      exact ⟨b, List.mem_cons_self, hj⟩
    · obtain ⟨c, hc, hi⟩ := h.plain k i hk
      exact ⟨c, List.mem_cons_of_mem _ hc, hi⟩

theorem Disassembles.cons {o : BlockId → Option Nat} {n : Nat} {p : Piece} {op : Op}
    {ps : List Piece} {ops : List (Nat × Op)}
    (h : Disassembles o (n + p.placeholder.length) ps ops) (hp : p.Reads o n op) :
    Disassembles o n (p :: ps) ((n, op) :: ops) := by
  refine ⟨fun k q hk => ?_, fun k q hk => ?_, fun k i hk => ?_⟩
  · rcases List.mem_cons.1 hk with hk | hk
    · cases hk
      exact Or.inr ⟨p, List.mem_cons_self, hp⟩
    · exact (h.sound k q hk).imp_right fun ⟨p, hp, hr⟩ => ⟨p, List.mem_cons_of_mem _ hp, hr⟩
  · rcases List.mem_cons.1 hk with hk | hk
    · cases hk
      exact Or.inr ⟨op, List.mem_cons_self, hp⟩
    · exact (h.complete k q hk).imp_right fun ⟨op, ho, hr⟩ => ⟨op, List.mem_cons_of_mem _ ho, hr⟩
  · rcases List.mem_cons.1 hk with hk | hk
    · cases hk
      cases hp
    · obtain ⟨b, hb, hi⟩ := h.plain k i hk
      exact ⟨b, List.mem_cons_of_mem _ hb, hi⟩

/-! ### Jumps -/

namespace Disassembles

variable {o : BlockId → Option Nat} {n : Nat} {ps : List Piece} {ops : List (Nat × Op)}

theorem exists_jump (h : Disassembles o n ps ops) {t : BlockId} (ht : t ∈ ps.filterMap target?) :
    ∃ k op v d, (k, op) ∈ ops ∧ op.distance? = some v ∧ o t = some d ∧ (k : Int) + v.toInt = d := by
  obtain ⟨p, hp, ht⟩ := List.mem_filterMap.1 ht
  obtain ⟨k, hk⟩ := (mem_iff_positions (n := n)).1 hp
  rcases h.complete k p hk with ⟨b, rfl⟩ | ⟨op, ho, hr⟩
  · cases ht
  · cases hr with
    | ret opcode => cases ht
    | @goto _ d v hd hv =>
        cases ht
        exact ⟨k, _, v, d, ho, rfl, hd, hv⟩
    | @compare _ d v hd hv =>
        cases ht
        exact ⟨k, _, v, d, ho, rfl, hd, hv⟩

theorem exists_target (h : Disassembles o n ps ops) {k : Nat} {op : Op} {v : Int16}
    (hk : (k, op) ∈ ops) (hv : op.distance? = some v) :
    ∃ t ∈ ps.filterMap target?, ∃ d : Nat, o t = some d ∧ (k : Int) + v.toInt = d := by
  rcases h.sound k op hk with ⟨i, rfl⟩ | ⟨p, hp, hr⟩
  · cases hv
  · have hmem := mem_iff_positions.2 ⟨k, hp⟩
    cases hr with
    | ret opcode => cases hv
    | @goto t d _ hd hj =>
        cases hv
        exact ⟨t, List.mem_filterMap.2 ⟨_, hmem, rfl⟩, d, hd, hj⟩
    | @compare t d _ hd hj =>
        cases hv
        exact ⟨t, List.mem_filterMap.2 ⟨_, hmem, rfl⟩, d, hd, hj⟩

theorem destination_iff (h : Disassembles o n ps ops) {d : Nat} :
    (∃ k op v, (k, op) ∈ ops ∧ op.distance? = some v ∧ (k : Int) + v.toInt = d) ↔
      ∃ t ∈ ps.filterMap target?, o t = some d := by
  refine ⟨fun hd => ?_, fun hd => ?_⟩
  · obtain ⟨k, op, v, hk, hv, hd⟩ := hd
    obtain ⟨t, ht, d', ho, hd'⟩ := h.exists_target hk hv
    obtain rfl : d = d' := by omega
    exact ⟨t, ht, ho⟩
  · obtain ⟨t, ht, ho⟩ := hd
    obtain ⟨k, op, v, d', hk, hv, ho', hd'⟩ := h.exists_jump ht
    obtain rfl : d = d' := by simpa [ho] using ho'
    exact ⟨k, op, v, hk, hv, hd'⟩

theorem jumpFree_iff (h : Disassembles o n ps ops) :
    (∀ k op, (k, op) ∈ ops → op.distance? = none) ↔ ps.filterMap target? = [] := by
  refine ⟨fun hn => ?_, fun hn k op hk => ?_⟩
  · refine List.eq_nil_iff_forall_not_mem.2 fun t ht => ?_
    obtain ⟨k, op, v, _, hk, hv, -⟩ := h.exists_jump ht
    rw [hn k op hk] at hv
    cases hv
  · cases hv : op.distance? with
    | none => rfl
    | some v =>
        obtain ⟨t, ht, -⟩ := h.exists_target hk hv
        rw [hn] at ht
        cases ht

end Disassembles

end Piece

theorem Block.code_eq (b : Block) : b.code = (b.instructions.map Op.plain).flatMap Op.encode := by
  rw [Block.code, List.flatMap_map]
  rfl

theorem Assembles.disassemble {o : BlockId → Option Nat} {n : Nat} {ps : List Piece}
    {code : List UInt8} (h : Assembles o n ps code) (hd : ∀ p ∈ ps, p.Defined) :
    ∃ ops, Op.disassemble n code = some ops ∧ Piece.Disassembles o n ps ops := by
  induction h with
  | nil => exact ⟨[], Op.disassemble_nil _, ⟨by simp, by simp [Piece.positions], by simp⟩⟩
  | @cons n p ps bytes code hp _ ih =>
      obtain ⟨hd, hds⟩ := List.forall_mem_cons.1 hd
      obtain ⟨ops, ho, hops⟩ := ih hds
      -- a piece that is one instruction
      have hone : ∀ op : Op, op.Defined → bytes = op.encode → p.Reads o n op →
          ∃ ops, Op.disassemble n (bytes ++ code) = some ops ∧ Piece.Disassembles o n (p :: ps) ops := by
        intro op hop hb hr
        refine ⟨(n, op) :: ops, ?_, .cons (by rwa [← hp.length_eq]) hr⟩
        rw [hb, Op.disassemble_cons hop, ← hb, ho]
        rfl
      cases hp with
      | body b =>
          have hops' : ∀ op ∈ b.instructions.map Op.plain, op.Defined := by
            intro op hop
            obtain ⟨i, hi, rfl⟩ := List.mem_map.1 hop
            exact hd i hi
          refine ⟨Op.placed n (b.instructions.map Op.plain) ++ ops, ?_, hops.body fun k op hk => ?_⟩
          · rw [b.code_eq, Op.disassemble_append hops', ← b.code_eq, ho]
            rfl
          · obtain ⟨i, hi, rfl⟩ := List.mem_map.1 (Op.mem_of_mem_placed hk)
            exact ⟨i, hi, rfl⟩
      | ret opcode => exact hone (.ret opcode) hd rfl (.ret opcode)
      | goto hj =>
          obtain ⟨d, v, hd, hv, rfl⟩ := hj
          exact hone (.goto v) trivial rfl (.goto hd hv)
      | compare hj =>
          obtain ⟨d, v, hd, hv, rfl⟩ := hj
          exact hone (.compare v) trivial rfl (.compare hd hv)

end ClassForge
