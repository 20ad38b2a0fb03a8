import Mathlib.Data.List.TakeWhile
import LedgerSearch.Payload.Writer
import LedgerSearch.Proofs.Outcome

/-!
# Payloads that have a written form

A test of a payload holds if it holds of all parts (`all_list`, `all_object`). What is written of an atom
with finite numbers that is plain has no half in it: digits and escapes are characters. So a payload with
finite numbers that is plain has a written form without halves, by induction on the payload
(`exists_write`), and that form has bytes (`exists_encode`).
-/

namespace LedgerSearch

/-- Every code point of the text is a character. -/
def Text.IsWhole (t : Text) : Prop := ∀ c ∈ t, c.isHalf = false

namespace Text

variable {s t : Text}

theorem IsWhole.append (hs : s.IsWhole) (ht : t.IsWhole) : (s ++ t).IsWhole := List.forall_mem_append.2 ⟨hs, ht⟩

theorem IsWhole.cons {c : CodePoint} (hc : c.isHalf = false) (ht : t.IsWhole) : IsWhole (c :: t) :=
  List.forall_mem_cons.2 ⟨hc, ht⟩

theorem IsWhole.subset (h : t.IsWhole) (hsub : s ⊆ t) : s.IsWhole := fun c hc => h c (hsub hc)

theorem isWhole_map_scalar (cs : List Char) : IsWhole (cs.map .scalar) :=
  List.forall_mem_map.2 fun _ _ => rfl

theorem isWhole_toText (s : String) : s.toText.IsWhole := isWhole_map_scalar s.toList

theorem isWhole_fill (n : Nat) (c : Char) : IsWhole (fill n c) := by
  intro d hd
  rw [List.eq_of_mem_replicate hd]
  rfl

theorem isWhole_ofNat (n : Nat) : (ofNat n).IsWhole := isWhole_map_scalar _

theorem isWhole_ofNatWide (width n : Nat) : (ofNatWide width n).IsWhole := (isWhole_fill _ _).append (isWhole_ofNat n)

theorem isWhole_hexDigits (width n : Nat) : (hexDigits width n).IsWhole :=
  (isWhole_fill _ _).append (isWhole_map_scalar _)

theorem isWhole_ofInt (n : Int) : (ofInt n).IsWhole := by
  unfold ofInt
  split
  · exact (isWhole_ofNat _).cons rfl
  · exact isWhole_ofNat _

theorem isWhole_joinWith {separator : Text} {pieces : List Text} (hseparator : separator.IsWhole)
    (hpieces : ∀ piece ∈ pieces, piece.IsWhole) : (joinWith separator pieces).IsWhole := by
  induction pieces with
  | nil => exact List.forall_mem_nil _
  | cons piece rest ih =>
    obtain ⟨hpiece, hrest⟩ := List.forall_mem_cons.1 hpieces
    cases rest with
    | nil => exact hpiece
    | cons next rest => exact (hpiece.append hseparator).append (ih hrest)

end Text

namespace Binary64

open Text

theorem isWhole_positional {digits : Text} (h : digits.IsWhole) (point : Int) : (positional digits point).IsWhole := by
  simp only [positional]
  split
  · exact ((isWhole_toText _).append (isWhole_fill _ _)).append h
  · split
    · exact (h.append (isWhole_fill _ _)).append (isWhole_toText _)
    · exact ((h.subset (List.take_subset _ _)).append (isWhole_toText _)).append (h.subset (List.drop_subset _ _))

theorem isWhole_scientific {digits : Text} (h : digits.IsWhole) (exponent : Int) :
    (scientific digits exponent).IsWhole := by
  have htail := (isWhole_toText (if exponent < 0 then "e-" else "e+")).append (isWhole_ofNatWide 2 exponent.natAbs)
  simp only [scientific, List.append_assoc]
  refine IsWhole.append ?_ htail
  split
  · exact isWhole_toText "0"
  · exact h
  · obtain ⟨hd, hrest⟩ := List.forall_mem_cons.1 h
    exact (IsWhole.cons rfl hrest).cons hd

theorem isWhole_writeUnits (units : Nat) : (writeUnits units).IsWhole := by
  simp only [writeUnits]
  split
  · exact isWhole_toText _
  · split
    · exact isWhole_positional (isWhole_ofNat _) _
    · exact isWhole_scientific (isWhole_ofNat _) _

theorem isWhole_write (x : Binary64) : x.write.IsWhole := by
  cases x with
  | nan => exact isWhole_toText _
  | infinite s => cases s <;> exact isWhole_toText _
  | finite s u =>
    cases s with
    | false => exact isWhole_writeUnits u
    | true => exact (isWhole_writeUnits u).cons rfl

end Binary64

namespace Payload

open Text Outcome

variable {test : Atom → Bool} {items : List Payload}

theorem all_atom (a : Atom) : all test (.atom a) = test a := by rw [all]

theorem all_list : all test (.list items) = true ↔ ∀ p ∈ items, all test p = true := by
  rw [all]
  induction items with
  | nil => simp [allItems]
  | cons p rest ih => rw [allItems, Bool.and_eq_true, ih, List.forall_mem_cons]

theorem all_object {fields : List (Text × Payload)} :
    all test (.object fields) = true ↔ ∀ f ∈ fields, test (.text f.1) = true ∧ all test f.2 = true := by
  rw [all]
  induction fields with
  | nil => simp [allFields]
  | cons f rest ih => rw [allFields, Bool.and_eq_true, Bool.and_eq_true, ih, List.forall_mem_cons]

theorem isWhole_escapeWritten {c : CodePoint} (hc : c.isHalf = false) : (escapeWritten c).IsWhole := by
  have hnil : IsWhole [] := List.forall_mem_nil _
  have hmarked : ∀ d : CodePoint, d.isHalf = false → IsWhole ['\\', d] := fun d hd => (hnil.cons hd).cons rfl
  unfold escapeWritten
  split
  · exact hmarked c hc
  -- the five controls that have a letter of their own
  iterate 5
    split
    · exact hmarked _ rfl
  split
  · exact ((isWhole_hexDigits 4 c.toNat).cons rfl).cons rfl
  · exact hnil.cons hc

theorem isWhole_writeText {t : Text} (h : t.IsWhole) : (writeText t).IsWhole := by
  refine ((isWhole_toText _).append fun c hc => ?_).append (isWhole_toText _)
  obtain ⟨d, hd, hc⟩ := List.mem_flatMap.1 hc
  exact isWhole_escapeWritten (h d hd) c hc

/-- What stands between two brackets, with commas between its pieces. -/
theorem isWhole_enclosed {pieces : List Text} (h : ∀ piece ∈ pieces, piece.IsWhole) (left right : String) :
    (left.toText ++ joinWith ",".toText pieces ++ right.toText).IsWhole :=
  ((isWhole_toText _).append (isWhole_joinWith (isWhole_toText _) h)).append (isWhole_toText _)

theorem isWhole_of_isPlain {t : Text} (h : (Atom.text t).isPlain = true) : t.IsWhole := by
  simpa [Atom.isPlain, IsWhole] using h

theorem exists_writeAtom {a : Atom} (hfinite : a.isFinite = true) (hplain : a.isPlain = true) :
    ∃ t, writeAtom a = .ok t ∧ t.IsWhole := by
  cases a with
  | null => exact ⟨_, rfl, isWhole_toText _⟩
  | bool b => exact ⟨_, rfl, isWhole_toText _⟩
  | int n =>
    rw [Atom.isPlain] at hplain
    exact ⟨_, by rw [writeAtom, if_pos hplain], isWhole_ofInt n⟩
  | real x => exact ⟨_, if_pos hfinite, x.isWhole_write⟩
  | text t => exact ⟨_, rfl, isWhole_writeText (isWhole_of_isPlain hplain)⟩

mutual
/-- A plain payload with finite numbers has a written form, and no half is in it. -/
theorem exists_write : ∀ p : Payload, p.hasFiniteNumbers = true → p.isPlain = true → ∃ t, write p = .ok t ∧ t.IsWhole
  | .atom a, hfinite, hplain => by
    rw [hasFiniteNumbers, all_atom] at hfinite
    rw [isPlain, all_atom] at hplain
    rw [write]
    exact exists_writeAtom hfinite hplain
  | .list items, hfinite, hplain => by
    obtain ⟨pieces, hpieces, hwhole⟩ := exists_writeItems items (all_list.1 hfinite) (all_list.1 hplain)
    exact ⟨_, by rw [write, hpieces, map_ok], isWhole_enclosed hwhole _ _⟩
  | .object fields, hfinite, hplain => by
    obtain ⟨pieces, hpieces, hwhole⟩ :=
      exists_writeFields fields (fun f hf => (all_object.1 hfinite f hf).2) (all_object.1 hplain)
    exact ⟨_, by rw [write, hpieces, map_ok], isWhole_enclosed hwhole _ _⟩

theorem exists_writeItems : ∀ items : List Payload, (∀ p ∈ items, p.hasFiniteNumbers = true) →
    (∀ p ∈ items, p.isPlain = true) → ∃ pieces, writeItems items = .ok pieces ∧ ∀ t ∈ pieces, t.IsWhole
  | [], _, _ => ⟨[], by rw [writeItems], List.forall_mem_nil _⟩
  | p :: rest, hfinite, hplain => by
    obtain ⟨hp, hrest⟩ := List.forall_mem_cons.1 hfinite
    obtain ⟨hp', hrest'⟩ := List.forall_mem_cons.1 hplain
    obtain ⟨t, ht, hwhole⟩ := exists_write p hp hp'
    obtain ⟨pieces, hpieces, hmore⟩ := exists_writeItems rest hrest hrest'
    exact ⟨t :: pieces, by rw [writeItems, ht, hpieces]; rfl, List.forall_mem_cons.2 ⟨hwhole, hmore⟩⟩

theorem exists_writeFields : ∀ fields : List (Text × Payload), (∀ f ∈ fields, f.2.hasFiniteNumbers = true) →
    (∀ f ∈ fields, (Atom.text f.1).isPlain = true ∧ f.2.isPlain = true) →
    ∃ pieces, writeFields fields = .ok pieces ∧ ∀ t ∈ pieces, t.IsWhole
  | [], _, _ => ⟨[], by rw [writeFields], List.forall_mem_nil _⟩
  | (key, p) :: rest, hfinite, hplain => by
    obtain ⟨hp, hrest⟩ := List.forall_mem_cons.1 hfinite
    obtain ⟨⟨hkey, hp'⟩, hrest'⟩ := List.forall_mem_cons.1 hplain
    obtain ⟨t, ht, hwhole⟩ := exists_write p hp hp'
    obtain ⟨pieces, hpieces, hmore⟩ := exists_writeFields rest hrest hrest'
    have hname := (isWhole_writeText (isWhole_of_isPlain hkey)).append (isWhole_toText ":")
    exact ⟨_ :: pieces, by rw [writeFields, ht, hpieces]; rfl, List.forall_mem_cons.2 ⟨hname.append hwhole, hmore⟩⟩
end

theorem encodeText_eq_ok {t : Text} (h : t.IsWhole) : encodeText t = .ok t.bytes := by
  have hrest : (t.dropWhile fun c => !c.isHalf) = [] := by
    rw [List.dropWhile_eq_nil_iff]
    exact fun c hc => by rw [h c hc]; rfl
  rw [encodeText, hrest]

theorem exists_encode {p : Payload} (hfinite : p.hasFiniteNumbers = true) (hplain : p.isPlain = true) :
    ∃ bytes, encode p = .ok bytes := by
  obtain ⟨t, ht, hwhole⟩ := exists_write p hfinite hplain
  exact ⟨t.bytes, by rw [encode, ht, ok_bind, encodeText_eq_ok hwhole]⟩

end Payload
end LedgerSearch
