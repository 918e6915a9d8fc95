import ClassForge.Proofs.ClassFile

/-!
# Inputs of the wrong length

A class file is read from front to back, and what is read depends on the bytes that are consumed and on
nothing behind them. So no class file is the beginning of another one: an input that is cut off is
reported as such wherever the cut is, and bytes behind a class are counted. The main result is
`ClassFile.faults_of_wrong_length`.
-/

namespace ClassForge

/-- The input ends at `last`, inside a field that starts there or before. -/
structure Fault.EndsAt (last : Nat) (e : Fault) : Prop where
  kind : ∃ field, e.kind = .unexpectedEof field
  le_last : e.offset ≤ last

namespace Reader

variable {α β : Type} {c c' : Cursor} {n : Nat}

/-! ## Bytes that settle what is read -/

/-- From position `n` on the bytes are read as `a`, whatever stands behind them; where the input ends
before they do, this is the fault. -/
structure Settles (read : Reader α) (n : Nat) (bytes : List UInt8) (a : α) : Prop where
  whole : ∀ rest, read ⟨n, bytes ++ rest⟩ = .ok (a, ⟨n + bytes.length, rest⟩)
  cut : ∀ p q, bytes = p ++ q → q ≠ [] →
    ∃ e, read ⟨n, p⟩ = .error e ∧ e.EndsAt (n + p.length)

theorem settles_nil {read : Reader α} {a : α} (h : ∀ rest, read ⟨n, rest⟩ = .ok (a, ⟨n, rest⟩)) :
    Settles read n [] a :=
  ⟨h, fun _ _ hb hq => absurd (List.append_eq_nil_iff.1 hb.symm).2 hq⟩

theorem settles_bytes (field : String) (n : Nat) (bs : List UInt8) :
    Settles (bytes field bs.length) n bs bs := by
  refine ⟨fun rest => bytes_eq_ok.2 ⟨rfl, ⟨rfl, rfl⟩⟩, fun p q h hq => ?_⟩
  have hlt : ¬bs.length ≤ p.length := by
    have := List.length_pos_iff.2 hq
    rw [h, List.length_append]
    omega
  refine ⟨⟨n, .unexpectedEof field⟩, ?_, ⟨field, rfl⟩, Nat.le_add_right n _⟩
  rw [bytes, if_neg]
  rwa [hasAtLeast_iff]

theorem bind_of_error {x : Reader α} {c : Cursor} {e : Fault} (h : x c = .error e) (f : α → Reader β) :
    (x >>= f) c = .error e := by
  show (x c >>= fun p => f p.1 p.2) = _
  rw [h]
  rfl

theorem bind_of_ok {x : Reader α} {c d : Cursor} {a : α} (h : x c = .ok (a, d)) (f : α → Reader β) :
    (x >>= f) c = f a d := by
  show (x c >>= fun p => f p.1 p.2) = _
  rw [h]
  rfl

/-- The cut is in the bytes of the first step, or behind them in those of the second. -/
theorem Settles.bind {x : Reader α} {f : α → Reader β} {as bs : List UInt8} {a : α} {b : β}
    (hx : Settles x n as a) (hf : Settles (f a) (n + as.length) bs b) :
    Settles (x >>= f) n (as ++ bs) b := by
  refine ⟨fun rest => ?_, fun p q h hq => ?_⟩
  · rw [List.append_assoc, bind_of_ok (hx.whole _)]
    exact (hf.whole rest).trans (by rw [List.length_append, Nat.add_assoc])
  · have hsecond : ∀ p', p = as ++ p' → bs = p' ++ q →
        ∃ e, (x >>= f) ⟨n, p⟩ = .error e ∧ e.EndsAt (n + p.length) := by
      rintro p' rfl hbs
      obtain ⟨e, he, hw⟩ := hf.cut p' q hbs hq
      rw [List.length_append, ← Nat.add_assoc, bind_of_ok (hx.whole _)]
      exact ⟨e, he, hw⟩
    rcases List.append_eq_append_iff.1 h with ⟨p', hp, hbs⟩ | ⟨q', has, hq'⟩
    · exact hsecond p' hp hbs
    · cases q' with
      | nil =>
          rw [List.append_nil] at has
          exact hsecond [] (by rw [has, List.append_nil]) hq'.symm
      | cons d q' =>
          obtain ⟨e, he, hw⟩ := hx.cut p (d :: q') has (List.cons_ne_nil d q')
          exact ⟨e, bind_of_error he f, hw⟩

/-! ## Readers that go from front to back -/

/-- Whatever is read is settled by the bytes that were consumed. -/
def Streams (read : Reader α) : Prop :=
  ∀ c a c', read c = .ok (a, c') → ∃ bytes, c.Past bytes c' ∧ Settles read c.position bytes a

theorem streams_pure (a : α) : Streams (pure a : Reader α) := by
  intro c b c' h
  obtain ⟨rfl, rfl⟩ := pure_eq_ok.1 h
  exact ⟨[], Cursor.Past.nil_iff.2 rfl, settles_nil fun _ => rfl⟩

theorem streams_position : Streams position := by
  intro c n c' h
  obtain ⟨rfl, rfl⟩ := position_eq_ok.1 h
  exact ⟨[], Cursor.Past.nil_iff.2 rfl, settles_nil fun _ => rfl⟩

theorem streams_bytes (field : String) (k : Nat) : Streams (bytes field k) := by
  intro c bs c' h
  obtain ⟨rfl, hp⟩ := bytes_eq_ok.1 h
  exact ⟨bs, hp, settles_bytes field _ bs⟩

theorem streams_failAt (offset : Nat) (kind : FaultKind) : Streams (failAt offset kind : Reader α) :=
  fun _ _ _ h => absurd h failAt_ne_ok

theorem Streams.bind {x : Reader α} {f : α → Reader β} (hx : Streams x) (hf : ∀ a, Streams (f a)) :
    Streams (x >>= f) := by
  intro c b c' h
  obtain ⟨a, d, ha, hb⟩ := bind_eq_ok.1 h
  obtain ⟨as, hpa, hsa⟩ := hx _ _ _ ha
  obtain ⟨bs, hpb, hsb⟩ := hf a _ _ _ hb
  rw [hpa.position] at hsb
  exact ⟨as ++ bs, Cursor.Past.append_iff.2 ⟨d, hpa, hpb⟩, hsa.bind hsb⟩

theorem Streams.map {x : Reader α} (hx : Streams x) (f : α → β) : Streams (f <$> x) := by
  rw [← bind_pure_comp]
  exact hx.bind fun a => streams_pure (f a)

theorem streams_number (field : String) (k : Nat) : Streams (number field k) :=
  (streams_bytes field k).map _

theorem streams_u8 (field : String) : Streams (u8 field) := (streams_number field 1).map _

theorem streams_u16 (field : String) : Streams (u16 field) := (streams_number field 2).map _

theorem streams_u32 (field : String) : Streams (u32 field) := (streams_number field 4).map _

theorem streams_u64 (field : String) : Streams (u64 field) := (streams_number field 8).map _

theorem Streams.timesOnto {read : Reader α} (h : Streams read) (k : Nat) (acc : List α) :
    Streams (timesOnto read k acc : Reader (List α)) := by
  induction k generalizing acc with
  | zero => exact streams_pure acc.reverse
  | succ k ih =>
      have hstep : (Reader.timesOnto read (k + 1) acc : Reader (List α)) =
          read >>= fun a => Reader.timesOnto read k (a :: acc) := by
        funext c
        rcases hr : read c with e | ⟨a, d⟩
        · simp [Reader.timesOnto, hr, bind_of_error hr]
        · simp [Reader.timesOnto, hr, bind_of_ok hr]
      rw [hstep]
      exact h.bind fun a => ih (a :: acc)

theorem Streams.counted {read : Reader α} (h : Streams read) : Streams (counted read) :=
  (streams_u16 _).bind fun k => h.timesOnto k.toNat []

theorem run_of_error {read : Reader α} {bytes : List UInt8} {e : Fault}
    (h : read (Cursor.atStart bytes) = .error e) : run read bytes = .error e := by
  unfold run StateT.run'
  rw [bind_of_error h]
  rfl

theorem run_of_ok {read : Reader α} {bytes : List UInt8} {a : α} {d : Cursor}
    (h : read (Cursor.atStart bytes) = .ok (a, d)) :
    run read bytes =
      if d.rest = [] then .ok a else .error ⟨d.position, .trailingBytes d.rest.length⟩ := by
  unfold run StateT.run'
  rw [bind_of_ok h]
  obtain ⟨position, rest⟩ := d
  cases rest <;> rfl

/-- The faults of a whole input that is too short or too long. -/
theorem Streams.run_of_wrong_length {read : Reader α} (h : Streams read) {bytes : List UInt8} {a : α}
    (hr : run read bytes = .ok a) :
    (∀ p q, bytes = p ++ q → q ≠ [] → ∃ e, run read p = .error e ∧ e.EndsAt p.length) ∧
    ∀ rest, rest ≠ [] →
      run read (bytes ++ rest) = .error ⟨bytes.length, .trailingBytes rest.length⟩ := by
  have hs : Settles read 0 bytes a := by
    rcases hread : read (Cursor.atStart bytes) with e | ⟨b, d⟩
    · rw [run_of_error hread] at hr
      cases hr
    · rw [run_of_ok hread] at hr
      split at hr
      next hd =>
        cases hr
        obtain ⟨bs, hp, hs⟩ := h _ _ _ hread
        have hbs : bytes = bs := by simpa [Cursor.atStart, hd] using hp.rest
        exact hbs ▸ hs
      next => cases hr
  refine ⟨fun p q hpq hq => ?_, fun rest hrest => ?_⟩
  · obtain ⟨e, he, hw⟩ := hs.cut p q hpq hq
    rw [Nat.zero_add] at hw
    exact ⟨e, run_of_error he, hw⟩
  · rw [run_of_ok (hs.whole rest), if_neg hrest, Nat.zero_add]

end Reader

open Reader

/-! ## Constants -/

theorem Index.streams_read {kind : IndexKind} : Streams (Index.read : Reader (Index kind)) :=
  (streams_u16 _).bind fun _ => streams_pure _

theorem HandleKind.streams_read : Streams HandleKind.read := by
  refine streams_position.bind fun offset => (streams_u8 _).bind fun k => ?_
  cases ofNumber? k with
  | none => exact streams_failAt _ _
  | some kind => exact streams_pure kind

theorem Constant.streams_readText : Streams Constant.readText := by
  refine (streams_u16 _).bind fun length => streams_position.bind fun offset =>
    (streams_bytes _ _).bind fun bs => ?_
  cases Text.ModifiedUtf8.decodeUnits bs with
  | none => exact streams_failAt _ _
  | some units => exact streams_pure _

theorem Constant.streams_readBody (offset : Nat) (tag : UInt8) :
    Streams (Constant.readBody offset tag) := by
  fun_cases Constant.readBody offset tag with
  | case1 => exact streams_readText
  | case2 | case3 => exact (streams_u32 _).bind fun _ => streams_pure _
  | case4 | case5 => exact (streams_u64 _).bind fun _ => streams_pure _
  | case6 | case7 | case13 | case16 | case17 => exact Index.streams_read.bind fun _ => streams_pure _
  | case8 | case9 | case10 | case11 =>
      exact Index.streams_read.bind fun _ => Index.streams_read.bind fun _ => streams_pure _
  | case12 =>
      exact HandleKind.streams_read.bind fun _ => Index.streams_read.bind fun _ => streams_pure _
  | case14 | case15 => exact (streams_u16 _).bind fun _ => Index.streams_read.bind fun _ => streams_pure _
  | case18 => exact streams_failAt _ _

theorem Constant.streams_read : Streams Constant.read :=
  streams_position.bind fun offset => (streams_u8 _).bind fun tag => streams_readBody offset tag

theorem Constants.streams_readUntil (count : Nat) (cs : Constants) :
    Streams (Constants.readUntil count cs : Reader Constants) := by
  by_cases hlt : cs.stop < count
  · have hstep : (Constants.readUntil count cs : Reader Constants) =
        Constant.read >>= fun k => Constants.readUntil count (cs.push k).2 := by
      funext c
      rw [readUntil, if_pos hlt]
      rcases hr : Constant.read c with e | ⟨k, d⟩
      · rw [bind_of_error hr]
      · rw [bind_of_ok hr]
    rw [hstep]
    exact Constant.streams_read.bind fun k => streams_readUntil count (cs.push k).2
  · have hstop : Constants.readUntil count cs = (pure cs : Reader Constants) := by
      funext c
      rw [readUntil, if_neg hlt]
      rfl
    rw [hstop]
    exact streams_pure cs
termination_by count - cs.stop
decreasing_by
  have hw : 0 < Wide.width k := k.width_pos
  rw [Slots.stop_push]
  omega

theorem Constants.streams_read : Streams Constants.read := by
  refine streams_position.bind fun offset => (streams_u16 _).bind fun count =>
    (streams_readUntil count.toNat empty).bind fun cs => ?_
  split
  · exact streams_pure cs
  · exact streams_failAt _ _

/-! ## Classes -/

theorem Flags.streams_read {scope : Scope} : Streams (Flags.read : Reader (Flags scope)) :=
  (streams_u16 _).bind fun _ => streams_pure _

theorem Version.streams_read : Streams Version.read :=
  (streams_u16 _).bind fun _ => (streams_u16 _).bind fun _ => streams_pure _

theorem Attribute.streams_read : Streams Attribute.read :=
  Index.streams_read.bind fun _ => (streams_u32 _).bind fun _ =>
    (streams_bytes _ _).bind fun _ => streams_pure _

theorem Member.streams_read {scope : Scope} : Streams (Member.read : Reader (Member scope)) :=
  Flags.streams_read.bind fun _ => Index.streams_read.bind fun _ => Index.streams_read.bind fun _ =>
    Attribute.streams_read.counted.bind fun _ => streams_pure _

namespace ClassFile

theorem streams_readMagic : Streams readMagic := by
  refine (streams_u32 _).bind fun found => ?_
  split
  · exact streams_pure ()
  · exact streams_failAt _ _

theorem streams_read : Streams ClassFile.read :=
  streams_readMagic.bind fun _ => Version.streams_read.bind fun _ =>
    Constants.streams_read.bind fun _ => Flags.streams_read.bind fun _ =>
    Index.streams_read.bind fun _ => Index.streams_read.bind fun _ =>
    Index.streams_read.counted.bind fun _ => Member.streams_read.counted.bind fun _ =>
    Member.streams_read.counted.bind fun _ => Attribute.streams_read.counted.bind fun _ =>
    streams_pure _

/-- An input that is cut off is reported at a byte that it has, or at its end, and never as anything
else; whatever stands behind a class is counted. -/
theorem faults_of_wrong_length {bytes : List UInt8} {c : ClassFile} (h : parse bytes = .ok c) :
    (∀ p, p <+: bytes → p ≠ bytes → ∃ offset field,
      parse p = .error ⟨offset, .unexpectedEof field⟩ ∧ offset ≤ p.length) ∧
    ∀ rest, rest ≠ [] →
      parse (bytes ++ rest) = .error ⟨bytes.length, .trailingBytes rest.length⟩ := by
  obtain ⟨hcut, hlong⟩ := streams_read.run_of_wrong_length h
  refine ⟨fun p hp hne => ?_, hlong⟩
  obtain ⟨q, rfl⟩ := hp
  have hq : q ≠ [] := by
    rintro rfl
    exact hne (List.append_nil p).symm
  obtain ⟨⟨offset, kind⟩, he, hw⟩ := hcut p q rfl hq
  obtain ⟨field, rfl⟩ := hw.kind
  exact ⟨offset, field, he, hw.le_last⟩

theorem faults_of_wrong_length_oddities :
    parse oddities.write = .ok oddities ∧
    (∃ offset field, parse oddities.write.dropLast = .error ⟨offset, .unexpectedEof field⟩ ∧
      offset ≤ oddities.write.dropLast.length) ∧
    parse (oddities.write ++ [0, 0]) = .error ⟨oddities.write.length, .trailingBytes 2⟩ := by
  have h := parse_eq_ok_iff.2 ⟨⟨oddities_pushed, oddities_representable⟩, rfl⟩
  obtain ⟨hcut, hlong⟩ := faults_of_wrong_length h
  have hne : oddities.write ≠ [] := by simp [write, Bytes.u32, Bytes.bigEndian]
  refine ⟨h, hcut _ (List.dropLast_prefix _) fun he => ?_, hlong [0, 0] (List.cons_ne_nil _ _)⟩
  have hlen := congrArg List.length he
  have hpos := List.length_pos_iff.2 hne
  rw [List.length_dropLast] at hlen
  omega

end ClassFile

end ClassForge
