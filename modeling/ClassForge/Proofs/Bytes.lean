import ClassForge.Bytes.Reader
import Mathlib.Tactic.Ring

/-!
# Numbers and lists as bytes

Reading and writing numbers are inverse to each other. A reader accepts a value exactly where the
bytes that the value is written as stand in front of the cursor, and then moves past them.
-/

namespace ClassForge

theorem toNat_ofNat_u16 {n : Nat} (h : n ≤ 65535) : (UInt16.ofNat n).toNat = n :=
  UInt16.toNat_ofNat_of_lt' (Nat.lt_succ_of_le h)

namespace Bytes

/-! ## Big-endian numbers -/

theorem foldl_value (bs : List UInt8) (n : Nat) :
    bs.foldl (fun n b => n * 256 + b.toNat) n = n * 256 ^ bs.length + value bs := by
  induction bs generalizing n with
  | nil => simp [value]
  | cons b bs ih =>
      have hv : value (b :: bs) = (0 * 256 + b.toNat) * 256 ^ bs.length + value bs := ih _
      rw [List.foldl_cons, ih, hv, List.length_cons, Nat.pow_succ]
      ring

theorem value_cons (b : UInt8) (bs : List UInt8) :
    value (b :: bs) = b.toNat * 256 ^ bs.length + value bs := by
  simp only [value, List.foldl_cons, Nat.zero_mul, Nat.zero_add]
  exact foldl_value bs _

theorem value_lt (bs : List UInt8) : value bs < 256 ^ bs.length := by
  induction bs with
  | nil => simp [value]
  | cons b bs ih =>
      have hb : b.toNat < 256 := b.toNat_lt
      rw [value_cons, List.length_cons, Nat.pow_succ]
      calc b.toNat * 256 ^ bs.length + value bs
          < b.toNat * 256 ^ bs.length + 256 ^ bs.length := by omega
        _ = (b.toNat + 1) * 256 ^ bs.length := by ring
        _ ≤ 256 * 256 ^ bs.length := Nat.mul_le_mul_right _ hb
        _ = 256 ^ bs.length * 256 := Nat.mul_comm _ _

theorem bigEndian_succ (k n : Nat) :
    bigEndian (k + 1) n = UInt8.ofNat (n / 256 ^ k) :: bigEndian k n := by
  induction k generalizing n with
  | zero => rw [Nat.pow_zero, Nat.div_one]; rfl
  | succ k ih =>
      have hdiv : n / 256 / 256 ^ k = n / 256 ^ (k + 1) := by
        rw [Nat.div_div_eq_div_mul, Nat.pow_succ, Nat.mul_comm]
      rw [bigEndian, ih, hdiv]
      rfl

@[simp]
theorem length_bigEndian (k n : Nat) : (bigEndian k n).length = k := by
  induction k with
  | zero => rfl
  | succ k ih => rw [bigEndian_succ, List.length_cons, ih]

theorem value_bigEndian (k n : Nat) : value (bigEndian k n) = n % 256 ^ k := by
  induction k with
  | zero => simp [bigEndian, value, Nat.mod_one]
  | succ k ih =>
      have hmod : n % 256 ^ (k + 1) = n % 256 ^ k + 256 ^ k * (n / 256 ^ k % 256) := by
        rw [Nat.pow_succ, Nat.mod_mul]
      rw [bigEndian_succ, value_cons, ih, length_bigEndian, UInt8.toNat_ofNat', hmod]
      ring

theorem bigEndian_add_mul (k m n : Nat) : bigEndian k (m * 256 ^ k + n) = bigEndian k n := by
  induction k generalizing m with
  | zero => rfl
  | succ k ih =>
      have hm : m * 256 ^ (k + 1) + n = m * 256 * 256 ^ k + n := by rw [Nat.pow_succ]; ring
      rw [bigEndian_succ, bigEndian_succ, hm, ih, Nat.add_comm,
        Nat.add_mul_div_right _ _ (Nat.pow_pos (by decide)), UInt8.ofNat_add]
      congr 1
      apply UInt8.toNat_inj.1
      simp

theorem bigEndian_value (bs : List UInt8) : bigEndian bs.length (value bs) = bs := by
  induction bs with
  | nil => rfl
  | cons b bs ih =>
      have hdiv : (b.toNat * 256 ^ bs.length + value bs) / 256 ^ bs.length = b.toNat := by
        rw [Nat.add_comm, Nat.add_mul_div_right _ _ (Nat.pow_pos (by decide)),
          Nat.div_eq_of_lt (value_lt bs), Nat.zero_add]
      rw [List.length_cons, value_cons, bigEndian_succ, hdiv, bigEndian_add_mul, ih, UInt8.ofNat_toNat]

end Bytes

/-! ## Cursors -/

/-- `c'` is `c` after it was moved over `bytes`. -/
structure Cursor.Past (c : Cursor) (bytes : List UInt8) (c' : Cursor) : Prop where
  rest : c.rest = bytes ++ c'.rest
  position : c'.position = c.position + bytes.length

namespace Cursor.Past

@[simp]
theorem nil_iff {c c' : Cursor} : c.Past [] c' ↔ c = c' := by
  constructor
  · rintro ⟨hr, hp⟩
    cases c; cases c'
    simp_all
  · rintro rfl
    exact ⟨rfl, rfl⟩

theorem append_iff {c c' : Cursor} {as bs : List UInt8} :
    c.Past (as ++ bs) c' ↔ ∃ d, c.Past as d ∧ d.Past bs c' := by
  constructor
  · rintro ⟨hr, hp⟩
    refine ⟨⟨c.position + as.length, bs ++ c'.rest⟩, ⟨?_, rfl⟩, ⟨rfl, ?_⟩⟩
    · rw [hr, List.append_assoc]
    · rw [hp, List.length_append, Nat.add_assoc]
  · rintro ⟨d, ⟨hr, hp⟩, ⟨hr', hp'⟩⟩
    refine ⟨?_, ?_⟩
    · rw [hr, hr', List.append_assoc]
    · rw [hp', hp, List.length_append, Nat.add_assoc]

end Cursor.Past

namespace Reader

variable {α β : Type} {c c' : Cursor}

/-! ## Steps of a reader -/

theorem pure_eq_ok {a b : α} : (pure a : Reader α) c = .ok (b, c') ↔ a = b ∧ c = c' := by
  show Except.ok (a, c) = .ok (b, c') ↔ _
  simp

theorem bind_eq_ok {x : Reader α} {f : α → Reader β} {b : β} :
    (x >>= f) c = .ok (b, c') ↔ ∃ a d, x c = .ok (a, d) ∧ f a d = .ok (b, c') := by
  show (x c >>= fun p => f p.1 p.2) = .ok (b, c') ↔ _
  cases hx : x c with
  | error e => simp [Bind.bind, Except.bind]
  | ok p => cases p; simp [Bind.bind, Except.bind]

theorem map_eq_ok {x : Reader α} {f : α → β} {b : β} :
    (f <$> x) c = .ok (b, c') ↔ ∃ a, x c = .ok (a, c') ∧ f a = b := by
  rw [← bind_pure_comp, bind_eq_ok]
  constructor
  · rintro ⟨a, d, hx, hp⟩
    obtain ⟨hb, rfl⟩ := pure_eq_ok.1 hp
    exact ⟨a, hx, hb⟩
  · rintro ⟨a, hx, hb⟩
    exact ⟨a, c', hx, pure_eq_ok.2 ⟨hb, rfl⟩⟩

theorem position_eq_ok {n : Nat} : position c = .ok (n, c') ↔ c.position = n ∧ c = c' := by
  show Except.ok (c.position, c) = .ok (n, c') ↔ _
  simp

@[simp]
theorem failAt_ne_ok {offset : Nat} {kind : FaultKind} {r : α × Cursor} :
    failAt offset kind c ≠ .ok r := by
  intro h
  cases h

theorem hasAtLeast_iff {n : Nat} {as : List α} : hasAtLeast n as = true ↔ n ≤ as.length := by
  cases n with
  | zero => simp [hasAtLeast]
  | succ n =>
      rw [Nat.succ_le_iff]
      simp [hasAtLeast]

theorem bytes_eq_ok {field : String} {n : Nat} {bs : List UInt8} :
    bytes field n c = .ok (bs, c') ↔ bs.length = n ∧ c.Past bs c' := by
  unfold bytes
  by_cases h : hasAtLeast n c.rest
  · have hn : n ≤ c.rest.length := hasAtLeast_iff.1 h
    simp only [h, if_true, Except.ok.injEq, Prod.mk.injEq]
    constructor
    · rintro ⟨rfl, rfl⟩
      exact ⟨List.length_take_of_le hn, (List.take_append_drop n c.rest).symm,
        by rw [List.length_take_of_le hn]⟩
    · rintro ⟨rfl, hr, hp⟩
      cases c'
      simp_all
  · simp only [h, Bool.false_eq_true, if_false, reduceCtorEq, false_iff, not_and]
    rintro rfl ⟨hr, -⟩
    apply h
    rw [hasAtLeast_iff, hr, List.length_append]
    exact Nat.le_add_right _ _

theorem number_eq_ok {field : String} {k n : Nat} :
    number field k c = .ok (n, c') ↔ n < 256 ^ k ∧ c.Past (Bytes.bigEndian k n) c' := by
  unfold number
  simp only [map_eq_ok, bytes_eq_ok]
  constructor
  · rintro ⟨bs, ⟨rfl, hp⟩, rfl⟩
    exact ⟨Bytes.value_lt bs, by rwa [Bytes.bigEndian_value]⟩
  · rintro ⟨hn, hp⟩
    exact ⟨_, ⟨Bytes.length_bigEndian k n, hp⟩, by rw [Bytes.value_bigEndian, Nat.mod_eq_of_lt hn]⟩

/-- A field of `k` bytes whose values are the numbers below `256 ^ k`. -/
theorem map_number_eq_ok {field : String} {k : Nat} {ofNat : Nat → α} {toNat : α → Nat} {v : α}
    (hlt : ∀ v, toNat v < 256 ^ k) (hof : ∀ v, ofNat (toNat v) = v)
    (hto : ∀ n, n < 256 ^ k → toNat (ofNat n) = n) :
    (ofNat <$> number field k) c = .ok (v, c') ↔ c.Past (Bytes.bigEndian k (toNat v)) c' := by
  simp only [map_eq_ok, number_eq_ok]
  constructor
  · rintro ⟨n, ⟨hn, hp⟩, rfl⟩
    rwa [hto n hn]
  · intro hp
    exact ⟨toNat v, ⟨hlt v, hp⟩, hof v⟩

theorem u8_eq_ok {field : String} {v : UInt8} :
    u8 field c = .ok (v, c') ↔ c.Past (Bytes.u8 v) c' := by
  have hv : Bytes.u8 v = Bytes.bigEndian 1 v.toNat := by simp [Bytes.u8, Bytes.bigEndian]
  rw [hv]
  exact map_number_eq_ok UInt8.toNat_lt (fun _ => UInt8.ofNat_toNat)
    fun _ hn => UInt8.toNat_ofNat_of_lt' hn

theorem u16_eq_ok {field : String} {v : UInt16} :
    u16 field c = .ok (v, c') ↔ c.Past (Bytes.u16 v) c' :=
  map_number_eq_ok UInt16.toNat_lt (fun _ => UInt16.ofNat_toNat)
    fun _ hn => UInt16.toNat_ofNat_of_lt' hn

theorem u32_eq_ok {field : String} {v : UInt32} :
    u32 field c = .ok (v, c') ↔ c.Past (Bytes.u32 v) c' :=
  map_number_eq_ok UInt32.toNat_lt (fun _ => UInt32.ofNat_toNat)
    fun _ hn => UInt32.toNat_ofNat_of_lt' hn

theorem u64_eq_ok {field : String} {v : UInt64} :
    u64 field c = .ok (v, c') ↔ c.Past (Bytes.u64 v) c' :=
  map_number_eq_ok UInt64.toNat_lt (fun _ => UInt64.ofNat_toNat)
    fun _ hn => UInt64.toNat_ofNat_of_lt' hn

/-! ## Readers of written forms -/

/-- The reader succeeds exactly where the written form of a value with `P` stands, and stops behind
it. -/
def Accepts (read : Reader α) (write : α → List UInt8) (P : α → Prop) : Prop :=
  ∀ (c : Cursor) (a : α) (c' : Cursor), read c = .ok (a, c') ↔ P a ∧ c.Past (write a) c'

variable {read : Reader α} {write : α → List UInt8} {P : α → Prop}

theorem Accepts.timesOnto (h : Accepts read write P) (n : Nat) (acc as : List α) (c c' : Cursor) :
    timesOnto read n acc c = .ok (as, c') ↔
      ∃ bs, as = acc.reverse ++ bs ∧ bs.length = n ∧ (∀ b ∈ bs, P b) ∧
        c.Past (bs.flatMap write) c' := by
  induction n generalizing acc c with
  | zero =>
      simp only [Reader.timesOnto, Except.ok.injEq, Prod.mk.injEq]
      constructor
      · rintro ⟨rfl, rfl⟩
        exact ⟨[], by simp⟩
      · rintro ⟨bs, rfl, hl, -, hp⟩
        obtain rfl := List.length_eq_zero_iff.1 hl
        exact ⟨(List.append_nil _).symm, Cursor.Past.nil_iff.1 hp⟩
  | succ n ih =>
      rw [Reader.timesOnto]
      constructor
      · intro hr
        cases hc : read c with
        | error e => simp [hc] at hr
        | ok p =>
            obtain ⟨a, d⟩ := p
            simp only [hc, ih] at hr
            obtain ⟨bs, rfl, rfl, hbs, hp⟩ := hr
            obtain ⟨ha, hd⟩ := (h _ _ _).1 hc
            refine ⟨a :: bs, by simp, by simp, ?_, ?_⟩
            · simpa using ⟨ha, hbs⟩
            · rw [List.flatMap_cons]
              exact Cursor.Past.append_iff.2 ⟨d, hd, hp⟩
      · rintro ⟨bs, rfl, hl, hbs, hp⟩
        cases bs with
        | nil => simp at hl
        | cons b bs =>
            rw [List.flatMap_cons] at hp
            obtain ⟨d, hd, hp⟩ := Cursor.Past.append_iff.1 hp
            have hc : read c = .ok (b, d) := (h _ _ _).2 ⟨hbs b (by simp), hd⟩
            simp only [hc, ih]
            exact ⟨bs, by simp, by simpa using hl, fun x hx => hbs x (by simp [hx]), hp⟩

theorem Accepts.times_eq_ok (h : Accepts read write P) {n : Nat} {as : List α} :
    times n read c = .ok (as, c') ↔
      as.length = n ∧ (∀ a ∈ as, P a) ∧ c.Past (as.flatMap write) c' := by
  unfold times
  rw [h.timesOnto]
  simp

theorem Accepts.counted (h : Accepts read write P) :
    Accepts (counted read) (Bytes.counted write) fun as => as.length ≤ 65535 ∧ ∀ a ∈ as, P a := by
  intro c as c'
  unfold Reader.counted Bytes.counted
  simp only [bind_eq_ok, u16_eq_ok, h.times_eq_ok, Cursor.Past.append_iff, Bytes.u16]
  constructor
  · rintro ⟨n, d, hd, hl, has, hp⟩
    have hn := n.toNat_lt
    exact ⟨⟨by omega, has⟩, d, by rwa [hl], hp⟩
  · rintro ⟨⟨hl, has⟩, d, hd, hp⟩
    have hn : (UInt16.ofNat as.length).toNat = as.length := toNat_ofNat_u16 hl
    exact ⟨UInt16.ofNat as.length, d, by rwa [hn], hn.symm, has, hp⟩

theorem finish_eq_ok {u : Unit} : finish c = .ok (u, c') ↔ c.rest = [] ∧ c = c' := by
  unfold finish
  cases c.rest <;> simp

theorem Accepts.run_eq_ok (h : Accepts read write P) {bytes : List UInt8} {a : α} :
    run read bytes = .ok a ↔ P a ∧ bytes = write a := by
  have hrun : run read bytes = .ok a ↔
      ∃ c', ((do let a ← read; finish; return a) : Reader α) (Cursor.atStart bytes) = .ok (a, c') := by
    unfold run StateT.run'
    cases hx : ((do let a ← read; finish; return a) : Reader α) (Cursor.atStart bytes) with
    | error e => simp [Functor.map, Except.map]
    | ok p => cases p; simp [Functor.map, Except.map]
  rw [hrun]
  simp only [bind_eq_ok, pure_eq_ok, finish_eq_ok, h _ _ _]
  constructor
  · rintro ⟨c', b, d, ⟨hb, hp⟩, -, e, ⟨hd, rfl⟩, rfl, rfl⟩
    exact ⟨hb, by simpa [Cursor.atStart, hd] using hp.rest⟩
  · rintro ⟨ha, rfl⟩
    refine ⟨⟨(write a).length, []⟩, a, _, ⟨ha, ⟨?_, ?_⟩⟩, (), _, ⟨rfl, rfl⟩, rfl, rfl⟩
    · simp [Cursor.atStart]
    · simp [Cursor.atStart]

end Reader

end ClassForge
