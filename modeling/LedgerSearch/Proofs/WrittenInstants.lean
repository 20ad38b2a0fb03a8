import LedgerSearch.Proofs.ReadBack
import LedgerSearch.Proofs.RecordShapes
import LedgerSearch.Proofs.Spacing

/-!
# Written instants are read back

An instant is written in fields of fixed widths, so each field is read back from the places that it takes, and what is
left are the fields behind it (`readFixed_ofNatWide`). Dates and times of day are read back as they are
(`Date.read?_write`, `Clock.read?_write`). Of the offset that follows, less than a second is lost: where its whole seconds
are none, universal time is read (`offsetOf_ofMicros`). So an instant is read back from its text if its offset is zero or
a second at least, and is in universal time otherwise (`Entry.instant?_written`).
-/

namespace LedgerSearch

open Text (IsGap IsWord isBlank isPlainDigit ofNatWide)

theorem Text.digitValue?_of_isPlainDigit {c : CodePoint} (hc : isPlainDigit c = true) :
    digitValue? c = some (c.toNat - '0'.toNat) := by
  simp only [isPlainDigit, Bool.and_eq_true, decide_eq_true_eq] at hc
  have h0 : '0'.toNat = 48 := rfl
  have h9 : '9'.toNat = 57 := rfl
  have hfirst : 48 ≤ c.toNat ∧ c.toNat < 48 + 10 := by omega
  rw [digitValue?, digitZeros, List.findSome?_cons, if_pos hfirst, h0]

theorem digitValues_of_isPlainDigit {t : Text} (ht : ∀ c ∈ t, isPlainDigit c = true) :
    digitValues t = t.map fun c => c.toNat - '0'.toNat := by
  induction t with
  | nil => rfl
  | cons c t ih =>
    obtain ⟨hc, ht⟩ := List.forall_mem_cons.1 ht
    rw [List.map_cons, ← ih ht]
    exact List.filterMap_cons_some (Text.digitValue?_of_isPlainDigit hc)

/-- A number is read back from as many places as it was written on. -/
theorem readFixed_ofNatWide {width n : Nat} (hwidth : 0 < width) (h : n < 10 ^ width) (rest : Text) :
    readFixed width (ofNatWide width n ++ rest) = some (n, rest) := by
  have hlength := Text.length_ofNatWide hwidth h
  have hplain := Text.isPlainDigit_ofNatWide width n
  unfold readFixed
  dsimp only
  rw [List.take_left' hlength, List.drop_left' hlength, if_pos ⟨hlength, List.all_eq_true.2 hplain⟩,
    ← digitValues_of_isPlainDigit hplain, Numeral.ofDigits_ofNatWide]

/-- A date within the years of four digits. -/
theorem Date.bounds_of_isValid {d : Date} (h : d.isValid = true) : d.year < 10 ^ 4 ∧ d.month < 10 ^ 2 ∧ d.day < 10 ^ 2 := by
  have hmonth : daysInMonth d.year d.month ≤ 31 := by
    unfold daysInMonth
    repeat' split
    all_goals decide
  simp only [isValid, Bool.and_eq_true, decide_eq_true_eq] at h
  omega

theorem Date.read?_write {d : Date} (h : d.isValid = true) (rest : Text) : Date.read? (d.write ++ rest) = some (d, rest) := by
  obtain ⟨hyear, hmonth, hday⟩ := bounds_of_isValid h
  have hwrite : d.write ++ rest =
      ofNatWide 4 d.year ++ ('-' : CodePoint) :: (ofNatWide 2 d.month ++ ('-' : CodePoint) :: (ofNatWide 2 d.day ++ rest)) := by
    simp only [Date.write, List.append_assoc]
    rfl
  -- the month begins with a digit, not with the mark of a week
  have hweek : ∀ r : Text, ofNatWide 2 d.month ++ ('-' : CodePoint) :: (ofNatWide 2 d.day ++ rest) ≠ ('W' : CodePoint) :: r := by
    intro r heq
    have hlength := Text.length_ofNatWide (by decide) hmonth
    have hplain := Text.isPlainDigit_ofNatWide 2 d.month
    generalize ofNatWide 2 d.month = m at *
    cases m with
    | nil => cases hlength
    | cons c m =>
      obtain ⟨rfl, -⟩ := List.cons.inj heq
      exact absurd (hplain _ List.mem_cons_self) (by decide)
  simp only [hwrite, Date.read?, readFixed_ofNatWide (by decide : 0 < 4) hyear, readFixed_ofNatWide (by decide : 0 < 2) hmonth,
    readFixed_ofNatWide (by decide : 0 < 2) hday, Option.bind_eq_bind, Option.bind_some, Option.pure_def]

theorem fieldEnd_colon {after : Text} (h : after ≠ []) : fieldEnd true (':' :: after) = .field after := by
  cases after with
  | nil => exact absurd rfl h
  | cons c after => rfl

theorem fieldEnd_point {after : Text} (h : after ≠ []) : fieldEnd true ('.' :: after) = .fraction after := by
  cases after with
  | nil => exact absurd rfl h
  | cons c after => rfl

namespace Clock

theorem readMicro_ofNatWide {micro : Nat} (h : micro < 10 ^ 6) : readMicro (ofNatWide 6 micro) = some (micro, true) := by
  have hread := readFixed_ofNatWide (by decide) h []
  rw [List.append_nil] at hread
  simp only [readMicro, Text.length_ofNatWide (by decide) h, Nat.min_self, hread, Option.bind_eq_bind, Option.bind_some,
    Nat.sub_self, Nat.pow_eq, Nat.pow_zero, Nat.mul_one, List.dropWhile_nil, Option.pure_def, atEnd]

/-- Hours and minutes alone are read as a whole minute. -/
theorem read?_minutes {hour minute : Nat} (hhour : hour < 10 ^ 2) (hminute : minute < 10 ^ 2) :
    read? (ofNatWide 2 hour ++ (':' : CodePoint) :: ofNatWide 2 minute) = some (⟨hour, minute, 0, 0⟩, true) := by
  have hread := readFixed_ofNatWide (by decide) hminute []
  rw [List.append_nil] at hread
  simp only [read?, readFixed_ofNatWide (by decide : 0 < 2) hhour, hread, Option.bind_eq_bind, Option.bind_some,
    Option.pure_def, List.head?_cons, beq_self_eq_true, fieldEnd_colon (ofNatWide_ne_nil 2 minute)]
  rfl

theorem read?_write {c : Clock} (h : c.isValid = true) : read? c.write = some (c, true) := by
  simp only [isValid, Bool.and_eq_true, decide_eq_true_eq] at h
  obtain ⟨⟨⟨hhour, hminute⟩, hsecond⟩, hmicro⟩ := h
  have hwidth : c.hour < 10 ^ 2 ∧ c.minute < 10 ^ 2 ∧ c.second < 10 ^ 2 := by omega
  have hwrite : c.write = ofNatWide 2 c.hour ++ (':' : CodePoint) :: (ofNatWide 2 c.minute ++ (':' : CodePoint) ::
      (ofNatWide 2 c.second ++ writeMicro c.micro)) := by
    simp only [write, List.append_assoc]
    rfl
  have hseconds : ofNatWide 2 c.second ++ writeMicro c.micro ≠ [] :=
    List.append_ne_nil_of_left_ne_nil (ofNatWide_ne_nil 2 c.second) _
  have hminutes : ofNatWide 2 c.minute ++ (':' : CodePoint) :: (ofNatWide 2 c.second ++ writeMicro c.micro) ≠ [] :=
    List.append_ne_nil_of_left_ne_nil (ofNatWide_ne_nil 2 c.minute) _
  simp only [hwrite, read?, readFixed_ofNatWide (by decide : 0 < 2) hwidth.1, readFixed_ofNatWide (by decide : 0 < 2) hwidth.2.1,
    readFixed_ofNatWide (by decide : 0 < 2) hwidth.2.2, Option.bind_eq_bind, Option.bind_some, Option.pure_def,
    List.head?_cons, beq_self_eq_true, fieldEnd_colon hminutes, fieldEnd_colon hseconds]
  -- behind the seconds stands a fraction, or nothing
  by_cases hzero : c.micro = 0
  · rw [writeMicro, if_pos hzero, ← hzero]
    rfl
  · have hpoint : writeMicro c.micro = ('.' : CodePoint) :: ofNatWide 6 c.micro := if_neg hzero
    simp only [hpoint, fieldEnd_point (ofNatWide_ne_nil 6 c.micro), readMicro_ofNatWide hmicro, Option.bind_some]

end Clock

/-- What is kept of an offset: less than a second is none. -/
def keptOffset (offset : Int) : Int := if offset.natAbs < 1000000 then 0 else offset

theorem natAbs_keptOffset_le (offset : Int) : (keptOffset offset).natAbs ≤ offset.natAbs := by
  unfold keptOffset
  split <;> omega

theorem keptOffset_eq_self_iff {offset : Int} : keptOffset offset = offset ↔ offset = 0 ∨ 1000000 ≤ offset.natAbs := by
  unfold keptOffset
  split <;> omega

namespace Clock

theorem isValid_ofMicros {n : Nat} (h : n < Instant.microsPerDay) : (ofMicros n).isValid = true := by
  unfold Instant.microsPerDay at h
  simp only [isValid, Bool.and_eq_true, decide_eq_true_eq]
  dsimp only [ofMicros]
  omega

/-- The seconds of an offset are left out where there are none, and what is left is read as a whole minute. -/
theorem read?_writeOffset {c : Clock} (h : c.isValid = true) : read? c.writeOffset = some (c, true) := by
  by_cases hzero : c.second = 0 ∧ c.micro = 0
  · have hwrite : c.writeOffset = ofNatWide 2 c.hour ++ (':' : CodePoint) :: ofNatWide 2 c.minute := by
      rw [writeOffset, if_pos hzero, List.append_nil, List.append_assoc]
      rfl
    obtain ⟨hour, minute, second, micro⟩ := c
    obtain ⟨rfl, rfl⟩ : second = 0 ∧ micro = 0 := hzero
    simp only [isValid, Bool.and_eq_true, decide_eq_true_eq] at h
    obtain ⟨⟨⟨hhour, hminute⟩, -⟩, -⟩ := h
    rw [hwrite]
    exact read?_minutes (Nat.lt_trans hhour (by decide)) (Nat.lt_trans hminute (by decide))
  · have hwrite : c.writeOffset = c.write := by
      rw [writeOffset, if_neg hzero, write]
      simp only [List.append_assoc]
    rw [hwrite, read?_write h]

end Clock

/-- The parts of an offset make up the offset, unless its whole seconds are none. -/
theorem offsetOf_ofMicros (offset : Int) : offsetOf (decide (offset < 0)) (Clock.ofMicros offset.natAbs) = keptOffset offset := by
  have hseconds : (offset.natAbs / 3600000000 * 60 + offset.natAbs / 60000000 % 60) * 60 + offset.natAbs / 1000000 % 60 =
      offset.natAbs / 1000000 := by omega
  simp only [offsetOf, Clock.ofMicros, hseconds, keptOffset, decide_eq_true_eq]
  repeat' split
  all_goals omega

/-- A digit or a mark between the fields of a time of day. -/
def IsClockChar (c : CodePoint) : Prop := isPlainDigit c = true ∨ c = ':' ∨ c = '.'

/-- A character of a written time. -/
def IsStampChar (c : CodePoint) : Prop := IsClockChar c ∨ c = '-' ∨ c = '+' ∨ c = 'T'

theorem isClockChar_ofNatWide (width n : Nat) : ∀ c ∈ ofNatWide width n, IsClockChar c := fun c hc =>
  .inl (Text.isPlainDigit_ofNatWide width n c hc)

theorem isClockChar_writeMicro (micro : Nat) : ∀ c ∈ writeMicro micro, IsClockChar c := by
  unfold writeMicro
  split
  · exact List.forall_mem_nil _
  · exact List.forall_mem_append.2 ⟨List.forall_mem_singleton.2 (.inr (.inr rfl)), isClockChar_ofNatWide 6 micro⟩

theorem isClockChar_colon : ∀ c ∈ ":".toText, IsClockChar c := List.forall_mem_singleton.2 (.inr (.inl rfl))

theorem Clock.isClockChar_write (c : Clock) : ∀ d ∈ c.write, IsClockChar d := by
  simp only [Clock.write, List.forall_mem_append]
  exact ⟨⟨⟨⟨⟨isClockChar_ofNatWide 2 _, isClockChar_colon⟩, isClockChar_ofNatWide 2 _⟩, isClockChar_colon⟩,
    isClockChar_ofNatWide 2 _⟩, isClockChar_writeMicro _⟩

theorem Clock.isClockChar_writeOffset (c : Clock) : ∀ d ∈ c.writeOffset, IsClockChar d := by
  simp only [Clock.writeOffset, List.forall_mem_append]
  refine ⟨⟨⟨isClockChar_ofNatWide 2 _, isClockChar_colon⟩, isClockChar_ofNatWide 2 _⟩, ?_⟩
  split
  · exact List.forall_mem_nil _
  · simp only [List.forall_mem_append]
    exact ⟨⟨isClockChar_colon, isClockChar_ofNatWide 2 _⟩, isClockChar_writeMicro _⟩

theorem isStampChar_writeOffset (offset : Int) : ∀ c ∈ writeOffset offset, IsStampChar c := by
  refine List.forall_mem_append.2 ⟨?_, fun c hc => .inl (Clock.isClockChar_writeOffset _ c hc)⟩
  split
  · exact List.forall_mem_singleton.2 (.inr (.inl rfl))
  · exact List.forall_mem_singleton.2 (.inr (.inr (.inl rfl)))

theorem Date.isStampChar_write (d : Date) : ∀ c ∈ d.write, IsStampChar c := by
  have hdigits : ∀ width n, ∀ c ∈ ofNatWide width n, IsStampChar c := fun width n c hc =>
    .inl (isClockChar_ofNatWide width n c hc)
  have hhyphen : ∀ c ∈ "-".toText, IsStampChar c := List.forall_mem_singleton.2 (.inr (.inl rfl))
  simp only [Date.write, List.forall_mem_append]
  exact ⟨⟨⟨⟨hdigits 4 _, hhyphen⟩, hdigits 2 _⟩, hhyphen⟩, hdigits 2 _⟩

theorem Stamp.isStampChar_write (s : Stamp) : ∀ c ∈ s.write, IsStampChar c := by
  simp only [Stamp.write, List.forall_mem_append]
  refine ⟨⟨⟨Date.isStampChar_write _, List.forall_mem_singleton.2 (.inr (.inr (.inr rfl)))⟩,
    fun c hc => .inl (Clock.isClockChar_write _ c hc)⟩, ?_⟩
  split
  · exact List.forall_mem_nil _
  · exact isStampChar_writeOffset _

/-- A character of a written time is a visible one of seven bits. -/
theorem IsStampChar.bounds {c : CodePoint} (h : IsStampChar c) : 32 < c.toNat ∧ c.toNat < 90 := by
  rcases h with (h | rfl | rfl) | rfl | rfl | rfl
  · simp only [isPlainDigit, Bool.and_eq_true, decide_eq_true_eq] at h
    have h0 : '0'.toNat = 48 := rfl
    have h9 : '9'.toNat = 57 := rfl
    omega
  all_goals decide

/-- A character that ends a time of day. -/
def endsClock (c : CodePoint) : Bool := c = '+' || c = '-' || c = 'Z'

theorem endsClock_eq_false {c : CodePoint} (h : IsClockChar c) : (!endsClock c) = true := by
  have hmarks : c ≠ '+' ∧ c ≠ '-' ∧ c ≠ 'Z' := by
    rcases h with h | rfl | rfl
    · refine ⟨?_, ?_, ?_⟩ <;> rintro rfl <;> exact absurd h (by decide)
    all_goals decide
  simp [endsClock, hmarks]

theorem readTime_write {c : Clock} (h : c.isValid = true) : readTime c.write = some (c, none) := by
  have hall : ∀ d ∈ c.write, (!endsClock d) = true := fun d hd => endsClock_eq_false (c.isClockChar_write d hd)
  have htake := List.takeWhile_eq_self_iff.2 hall
  have hdrop := List.dropWhile_eq_nil_iff.2 hall
  unfold endsClock at htake hdrop
  simp only [readTime, htake, hdrop, Clock.read?_write h, Option.bind_eq_bind, Option.bind_some, if_pos]

theorem readTime_signed {c shift : Clock} {mark : CodePoint} (hmark : mark = '+' ∨ mark = '-') (hc : c.isValid = true)
    (hshift : shift.isValid = true) :
    readTime (c.write ++ mark :: shift.writeOffset) = some (c, some (offsetOf (decide (mark = '-')) shift)) := by
  have hall : ∀ d ∈ c.write, (!endsClock d) = true := fun d hd => endsClock_eq_false (c.isClockChar_write d hd)
  have hends : endsClock mark = true := by
    rcases hmark with rfl | rfl <;> decide
  have htake : (c.write ++ mark :: shift.writeOffset).takeWhile (!endsClock ·) = c.write := by
    simp [List.takeWhile_append_of_pos hall, hends]
  have hdrop : (c.write ++ mark :: shift.writeOffset).dropWhile (!endsClock ·) = mark :: shift.writeOffset := by
    simp [List.dropWhile_append_of_pos hall, hends]
  unfold endsClock at htake hdrop
  simp only [readTime, htake, hdrop, Clock.read?_write hc, Option.bind_eq_bind, Option.bind_some]
  have hread := Clock.read?_writeOffset hshift
  rcases hmark with rfl | rfl
  all_goals
    change (Clock.read? shift.writeOffset).bind _ = _
    rw [hread]
    rfl

/-- An offset is read back but for less than a second. -/
theorem readTime_write_append {c : Clock} (h : c.isValid = true) {offset : Int} (hoffset : offset.natAbs < Instant.microsPerDay) :
    readTime (c.write ++ writeOffset offset) = some (c, some (keptOffset offset)) := by
  have hshift := Clock.isValid_ofMicros hoffset
  have hkept := offsetOf_ofMicros offset
  unfold writeOffset
  split
  case isTrue hneg =>
    rw [decide_eq_true hneg] at hkept
    rw [← hkept]
    exact readTime_signed (.inr rfl) h hshift
  case isFalse hpos =>
    rw [decide_eq_false hpos] at hkept
    rw [← hkept]
    exact readTime_signed (.inl rfl) h hshift

theorem IsStampChar.isHalf {c : CodePoint} (h : IsStampChar c) : c.isHalf = false := by
  cases c with
  | scalar c => rfl
  | half index =>
    have hbound := h.bounds.2
    rw [CodePoint.toNat, CodePoint.firstHalf] at hbound
    omega

theorem IsStampChar.byteCount {c : CodePoint} (h : IsStampChar c) : c.byteCount = 1 := by
  cases c with
  | scalar c =>
    have hbound : c.val ≤ 0x7f := UInt32.le_iff_toNat_le.2 (Nat.le_of_lt (Nat.lt_trans h.bounds.2 (by decide)))
    rw [CodePoint.byteCount, Char.utf8Size]
    exact if_pos hbound
  | half index => cases h.isHalf

/-- A written time is a word. -/
theorem isWord_of_isStampChar {t : Text} (hne : t ≠ []) (h : ∀ c ∈ t, IsStampChar c) : IsWord t := by
  refine ⟨hne, fun c hc => ?_⟩
  have hbounds := (h c hc).bounds
  simp only [isBlank, Text.inRanges, Text.blankRanges, List.any_cons, List.any_nil, Bool.or_eq_false_iff,
    Bool.and_eq_false_iff, decide_eq_false_iff_not, and_true]
  omega

namespace Stamp

theorem replaceSeparator_eq_self {t : Text} (h : ∀ c ∈ t, c.isHalf = false) : replaceSeparator t = t := by
  have hplaces : ∀ place ∈ separatorPlaces, ¬(t[place]?.any CodePoint.isHalf) = true := by
    intro place _ hany
    obtain ⟨c, hc, hhalf⟩ := (Option.any_eq_true _ _).1 hany
    rw [h c (List.mem_of_getElem? hc)] at hhalf
    cases hhalf
  rw [replaceSeparator, List.find?_eq_none.2 hplaces]

/-- What is read of a stamp that is written: all of it but for less than a second of its offset. -/
def kept (s : Stamp) : Stamp := { s with offset := s.offset.map keptOffset }

theorem fields?_write {s : Stamp} (hdate : s.date.isValid = true) (hclock : s.clock.isValid = true)
    (hoffset : s.hasOffsetInRange = true) : fields? s.write = some s.kept := by
  have hchars := s.isStampChar_write
  have hhalf : ∀ c ∈ s.write, c.isHalf = false := fun c hc => (hchars c hc).isHalf
  have hany : s.write.any CodePoint.isHalf = false := List.any_eq_false.2 fun c hc => Bool.eq_false_iff.1 (hhalf c hc)
  have hspread : spreadBytes s.write = s.write := spreadBytes_of_ascii fun c hc => (hchars c hc).byteCount
  obtain ⟨time, htime, hwrite⟩ : ∃ time, readTime time = some (s.clock, s.offset.map keptOffset) ∧
      s.write = s.date.write ++ ('T' : CodePoint) :: time := by
    cases hknown : s.offset with
    | none =>
      refine ⟨_, readTime_write hclock, ?_⟩
      simp only [write, hknown, List.append_nil, List.append_assoc]
      rfl
    | some offset =>
      have hless : offset.natAbs < Instant.microsPerDay := by
        simpa [hasOffsetInRange, hknown] using hoffset
      refine ⟨_, readTime_write_append hclock hless, ?_⟩
      simp only [write, hknown, List.append_assoc]
      rfl
  have hseparator : (('T' : CodePoint) :: time).drop (CodePoint.byteCount 'T') = time := rfl
  simp only [fields?, replaceSeparator_eq_self hhalf, hany, hspread]
  simp only [hwrite, Date.read?_write hdate, hseparator, htime, Option.bind_eq_bind, Option.bind_some, Option.pure_def]
  rfl

/-- A stamp that exists is read back from its text. -/
theorem read?_write {s : Stamp} (hdate : s.date.isValid = true) (hclock : s.clock.isValid = true)
    (hoffset : s.hasOffsetInRange = true) : read? s.write = some s.kept := by
  have hkept : s.kept.hasOffsetInRange = true := by
    unfold hasOffsetInRange at hoffset ⊢
    rw [decide_eq_true_eq] at hoffset ⊢
    cases hknown : s.offset with
    | none => simpa [kept, hknown] using hoffset
    | some offset =>
      rw [hknown] at hoffset
      rw [kept, hknown]
      exact Nat.lt_of_le_of_lt (natAbs_keptOffset_le offset) hoffset
  rw [read?, fields?_write hdate hclock hoffset, Option.filter_some, hkept]
  simp only [kept, hdate, hclock, Bool.and_self, if_true]

end Stamp

/-- A time that exists, with no offset known. -/
structure Stamp.IsNaive (s : Stamp) : Prop where
  offset : s.offset = none
  date : s.date.isValid = true
  clock : s.clock.isValid = true

theorem Stamp.isWord_write (s : Stamp) : IsWord s.write := by
  refine isWord_of_isStampChar ?_ s.isStampChar_write
  simp only [write, List.append_assoc]
  exact List.append_ne_nil_of_right_ne_nil _ (List.append_ne_nil_of_left_ne_nil (List.cons_ne_nil _ _) _)

namespace Instant

/-- What is read of an instant that is written: all of it but for less than a second of its offset. -/
def kept (i : Instant) : Instant := { i with offset := keptOffset i.offset }

theorem kept_eq_self_iff {i : Instant} : i.kept = i ↔ i.offset = 0 ∨ 1000000 ≤ i.offset.natAbs := by
  refine Iff.trans ⟨congrArg Instant.offset, fun h => ?_⟩ keptOffset_eq_self_iff
  exact congrArg (Instant.mk i.date i.clock) h

theorem ofStamp_kept (i : Instant) : ofStamp i.stamp.kept = i.kept := rfl

theorem write_stamp (i : Instant) : i.stamp.write = i.write := rfl

/-- An instant at no offset, with a letter that says so. -/
def writeUniversal (i : Instant) : Text := i.date.write ++ "T".toText ++ i.clock.write ++ "Z".toText

theorem isWord_writeUniversal (i : Instant) : IsWord i.writeUniversal := by
  obtain ⟨hne, hsolid⟩ := Stamp.isWord_write ⟨i.date, i.clock, none⟩
  rw [Stamp.write, List.append_nil] at hne hsolid
  exact ⟨List.append_ne_nil_of_left_ne_nil hne _, List.forall_mem_append.2 ⟨hsolid, List.forall_mem_singleton.2 (by decide)⟩⟩

theorem expandZulu_eq_self {t : Text} (h : ∀ c ∈ t, IsStampChar c) : expandZulu t = t := by
  refine if_neg fun hlast => ?_
  exact absurd (h _ (List.mem_of_getLast? hlast)).bounds (by decide)

theorem expandZulu_writeUniversal {i : Instant} (h : i.offset = 0) : expandZulu i.writeUniversal = i.write := by
  have hlast : i.writeUniversal.getLast? = some 'Z' := List.getLast?_concat
  rw [expandZulu, if_pos hlast, writeUniversal, show "Z".toText = [('Z' : CodePoint)] from rfl, List.dropLast_concat, write, h]
  rfl

end Instant

/-- Blanks around a word are left out as a time is read from it. -/
theorem Entry.instant?_gap_word_gap {before word after : Text} (hbefore : IsGap before) (hword : IsWord word)
    (hafter : IsGap after) :
    Entry.instant? (.text (before ++ word ++ after)) = (Stamp.read? (Instant.expandZulu word)).map Instant.ofStamp := by
  obtain ⟨c, t, hcons⟩ := List.exists_cons_of_ne_nil
    (List.append_ne_nil_of_left_ne_nil (List.append_ne_nil_of_right_ne_nil before hword.1) after)
  have hread : Entry.instant? (.text (before ++ word ++ after)) = Instant.read? (before ++ word ++ after) := by
    rw [hcons]
    rfl
  rw [hread, Instant.read?, Text.strip_append_gap hafter, Text.strip_gap_append hbefore, Text.strip_word hword]

/-- A written stamp is read back, taken as universal time where it has no offset. -/
theorem Entry.instant?_gap_write_gap {before after : Text} (hbefore : IsGap before) (hafter : IsGap after) {s : Stamp}
    (hdate : s.date.isValid = true) (hclock : s.clock.isValid = true) (hoffset : s.hasOffsetInRange = true) :
    Entry.instant? (.text (before ++ s.write ++ after)) = some (Instant.ofStamp s.kept) := by
  rw [instant?_gap_word_gap hbefore s.isWord_write hafter, Instant.expandZulu_eq_self s.isStampChar_write,
    Stamp.read?_write hdate hclock hoffset, Option.map_some]

theorem Entry.instant?_gap_writeUniversal_gap {before after : Text} (hbefore : IsGap before) (hafter : IsGap after)
    {i : Instant} (hi : i.stamp.IsAware) (hzero : i.offset = 0) :
    Entry.instant? (.text (before ++ i.writeUniversal ++ after)) = some i := by
  have hread := Stamp.read?_write hi.date hi.clock hi.inRange
  rw [Instant.write_stamp] at hread
  have hkept : i.kept = i := Instant.kept_eq_self_iff.2 (.inl hzero)
  rw [instant?_gap_word_gap hbefore i.isWord_writeUniversal hafter, Instant.expandZulu_writeUniversal hzero, hread,
    Option.map_some, Instant.ofStamp_kept, hkept]

/-- Of a written instant everything is read back but less than a second of offset, whatever blanks stand around it; a
letter for universal time reads as no offset, and so does the lack of an offset. -/
theorem Entry.instant?_written {before after : Text} (hbefore : IsGap before) (hafter : IsGap after) :
    (∀ i : Instant, i.stamp.IsAware →
      Entry.instant? (.text (before ++ i.write ++ after)) = some { i with offset := keptOffset i.offset } ∧
      (Entry.instant? (.text (before ++ i.write ++ after)) = some i ↔ i.offset = 0 ∨ 1000000 ≤ i.offset.natAbs) ∧
      (i.offset = 0 → Entry.instant? (.text (before ++ i.writeUniversal ++ after)) = some i)) ∧
    ∀ s : Stamp, s.IsNaive →
      Instant.ofStamp s = ⟨s.date, s.clock, 0⟩ ∧
      Entry.instant? (.text (before ++ s.write ++ after)) = some ⟨s.date, s.clock, 0⟩ := by
  constructor
  · intro i hi
    have hread : Entry.instant? (.text (before ++ i.write ++ after)) = some i.kept := by
      rw [← Instant.ofStamp_kept, ← Instant.write_stamp]
      exact instant?_gap_write_gap hbefore hafter hi.date hi.clock hi.inRange
    refine ⟨hread, ?_, instant?_gap_writeUniversal_gap hbefore hafter hi⟩
    rw [hread, Option.some_inj]
    exact Instant.kept_eq_self_iff
  · intro s hs
    have hoffset : s.hasOffsetInRange = true := by
      rw [Stamp.hasOffsetInRange, hs.offset]
      rfl
    have hstamp : Instant.ofStamp s.kept = ⟨s.date, s.clock, 0⟩ := by
      rw [Instant.ofStamp, Stamp.kept, hs.offset]
      rfl
    refine ⟨?_, ?_⟩
    · rw [Instant.ofStamp, hs.offset, Option.getD_none]
    · rw [instant?_gap_write_gap hbefore hafter hs.date hs.clock hoffset, hstamp]

theorem Entry.instant?_written_western :
    let western : Instant := ⟨⟨2024, 2, 29⟩, ⟨23, 59, 59, 7⟩, -19800000001⟩
    let universal : Instant := ⟨⟨9999, 12, 31⟩, ⟨0, 0, 0, 0⟩, 0⟩
    let naive : Stamp := ⟨⟨1, 1, 1⟩, ⟨12, 30, 0, 500000⟩, none⟩
    IsGap "\t".toText ∧ IsGap " \n".toText ∧ western.stamp.IsAware ∧ universal.stamp.IsAware ∧ naive.IsNaive ∧
      Entry.instant? (.text ("\t".toText ++ western.write ++ " \n".toText)) = some western ∧
      Entry.instant? (.text ("\t".toText ++ universal.writeUniversal ++ " \n".toText)) = some universal ∧
      Entry.instant? (.text ("\t".toText ++ naive.write ++ " \n".toText)) = some ⟨naive.date, naive.clock, 0⟩ := by
  intro western universal naive
  have hbefore : IsGap "\t".toText := by decide
  have hafter : IsGap " \n".toText := by decide
  have hwestern : western.stamp.IsAware := ⟨rfl, by decide, by decide, by decide⟩
  have huniversal : universal.stamp.IsAware := ⟨rfl, by decide, by decide, by decide⟩
  have hnaive : naive.IsNaive := ⟨rfl, by decide, by decide⟩
  obtain ⟨haware, hread⟩ := Entry.instant?_written hbefore hafter
  exact ⟨hbefore, hafter, hwestern, huniversal, hnaive, (haware western hwestern).2.1.2 (.inr (by decide)),
    (haware universal huniversal).2.2 rfl, (hread naive hnaive).2⟩

/-- An offset of a microsecond is lost. -/
theorem Entry.instant?_write_microsecond :
    let i : Instant := ⟨⟨2024, 5, 1⟩, ⟨12, 30, 15, 0⟩, 1⟩
    i.stamp.IsAware ∧ Entry.instant? (.text i.write) = some { i with offset := 0 } ∧ Entry.instant? (.text i.write) ≠ some i := by
  refine ⟨⟨rfl, by decide, by decide, by decide⟩, ?_, ?_⟩
  all_goals decide +kernel

end LedgerSearch
