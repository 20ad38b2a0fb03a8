import LedgerSearch.Sorting

/-! # Merging two runs
Two runs are merged from the end at which the shorter one is used up sooner. Items are taken one by one until
one run has won often enough in a row; from then on whole stretches are taken, whose length is found
by leaps and halving, until the stretches become short. The comparison need not be consistent; the
merged run holds the items of both in any case (`merge_perm`). -/
namespace LedgerSearch.Sorting

variable {α : Type}

/-- Leaps on by doubled distances while that is allowed: the last distance reached, and the one not
reached or else the limit. -/
def leap (goesOn : Nat → Bool) (limit last next : Nat) : Nat × Nat :=
  if next < limit ∧ goesOn next then leap goesOn limit next (2 * next + 1) else (last, min next limit)
termination_by limit - next

/-- Halves the positions from `low` to `high` down to the first that is not ahead. -/
def bisect (isAhead : Nat → Bool) (low high : Nat) : Nat :=
  if low < high then
    let middle := low + (high - low) / 2
    if isAhead middle then bisect isAhead (middle + 1) high else bisect isAhead low middle
  else high
termination_by high - low

/-- How many items of a run are ahead of another item, looked for from a position on. -/
def countAhead (ahead : α → Bool) (run : List α) (from' : Nat) : Nat :=
  let isAhead (i : Nat) : Bool := (run[i]?.map ahead).getD false
  if isAhead from' then
    let (last, next) := leap (fun k => isAhead (from' + k)) (run.length - from') 0 1
    bisect isAhead (from' + last + 1) (from' + next)
  else
    let (last, next) := leap (fun k => !isAhead (from' - k)) (from' + 1) 0 1
    bisect isAhead (from' + 1 - next) (from' - last)

/-- The end of two runs at which they are merged. -/
inductive Side | front | back deriving DecidableEq, Repr

namespace Side

/-- How many items of a run are taken before the next one of the other run. Runs merged at their backs
are given turned round. -/
def stretch (side : Side) (ahead : α → Bool) (run : List α) : Nat :=
  match side with
  | front => countAhead ahead run 0
  | back => run.length - countAhead ahead run.reverse (run.length - 1)

/-- Whether the next item of the second run is taken before that of the first. -/
def takesSecond (side : Side) (below : α → α → Bool) (first second : α) : Bool :=
  match side with
  | front => below second first
  | back => !below second first

/-- What is left to be taken once nothing is left to be compared: the last item of the run that is set
aside goes behind all of the other run. -/
def rest? (side : Side) (first second : List α) : Option (List α) :=
  let (aside, other) := match side with
    | front => (first, second)
    | back => (second, first)
  match aside, other with
  | _, [] => some aside
  | [], _ => some other
  | [a], _ => some (other ++ [a])
  | _, _ => none

end Side

/-- Items in the order in which they are taken, and the patience that is left. -/
abbrev Merged (α : Type) := List α × Nat

/-- Takes items before all others. -/
def Merged.behind (items : List α) (m : Merged α) : Merged α := (items ++ m.1, m.2)

/-- Takes what is left if there is nothing to compare, or else goes on. -/
def Side.finish (side : Side) (patience : Nat) (first second : List α) (more : Unit → Merged α) : Merged α :=
  match side.rest? first second with
  | some rest => (rest, patience)
  | none => more ()

/-- Items are taken one by one, with a count of how many in a row came from each run, or in stretches. -/
inductive Pace | single (first second : Nat) | stretches deriving Repr

/-- A stretch of this length is worth looking for another one. -/
def longStretch : Nat := 7

/-- Merges two runs from a side, in at most `fuel` rounds. The patience is the number of items in a row
after which stretches are taken; it shrinks while they stay long and grows when they become short. -/
def mergeFrom (side : Side) (below : α → α → Bool) : Nat → Nat → Pace → List α → List α → Merged α
  | fuel + 1, patience, .single wonFirst wonSecond, a :: first, b :: second =>
    if side.takesSecond below a b then
      let pace := if patience ≤ wonSecond + 1 then .stretches else .single 0 (wonSecond + 1)
      Merged.behind [b] <| side.finish patience (a :: first) second fun _ =>
        mergeFrom side below fuel patience pace (a :: first) second
    else
      let pace := if patience ≤ wonFirst + 1 then .stretches else .single (wonFirst + 1) 0
      Merged.behind [a] <| side.finish patience first (b :: second) fun _ =>
        mergeFrom side below fuel patience pace first (b :: second)
  | fuel + 1, patience, .stretches, a :: first, b :: second =>
    let n := side.stretch (fun x => !below b x) (a :: first)
    Merged.behind ((a :: first).take n) <| side.finish patience ((a :: first).drop n) (b :: second) fun _ =>
      Merged.behind [b] <| side.finish patience ((a :: first).drop n) second fun _ =>
        match (a :: first).drop n with
        | [] => (second, patience)
        | c :: first =>
          let m := side.stretch (fun x => below x c) second
          Merged.behind (second.take m) <| side.finish patience (c :: first) (second.drop m) fun _ =>
            Merged.behind [c] <| side.finish patience first (second.drop m) fun _ =>
              if longStretch ≤ n ∨ longStretch ≤ m then
                mergeFrom side below fuel (max 1 (patience - 1)) .stretches first (second.drop m)
              else mergeFrom side below fuel (patience + 1) (.single 0 0) first (second.drop m)
  | _, patience, _, first, second => (first ++ second, patience)

/-- Merges two runs that are not empty, of which the second starts below the first and ends below it:
its first item, or the last one of the first run, is taken without being compared again. -/
def mergeApart (below : α → α → Bool) (patience : Nat) (first second : List α) : Merged α :=
  let fuel := first.length + second.length
  if first.length ≤ second.length then
    Merged.behind (second.take 1) <| Side.front.finish patience first (second.drop 1) fun _ =>
      mergeFrom .front below fuel patience (.single 0 0) first (second.drop 1)
  else
    let (first, second) := (first.reverse, second.reverse)
    let m := Merged.behind (first.take 1) <| Side.back.finish patience (first.drop 1) second fun _ =>
      mergeFrom .back below fuel patience (.single 0 0) (first.drop 1) second
    (m.1.reverse, m.2)

/-- Merges two runs. The items of the first that are ahead of all of the second stay where they are, and
so do the items of the second that all of the first is ahead of. -/
def merge (below : α → α → Bool) (patience : Nat) (first second : List α) : Merged α :=
  match second with
  | [] => (first, patience)
  | b :: _ =>
    let n := countAhead (fun x => !below b x) first 0
    match (first.drop n).getLast? with
    | none => (first ++ second, patience)
    | some a =>
      let m := countAhead (fun x => below x a) second (second.length - 1)
      let merged : Merged α := if m = 0 then (first.drop n, patience)
        else mergeApart below patience (first.drop n) (second.take m)
      (first.take n ++ merged.1 ++ second.drop m, merged.2)

namespace Side

theorem rest?_perm {side : Side} {first second rest : List α} (h : side.rest? first second = some rest) :
    rest.Perm (first ++ second) := by
  have key : ∀ aside other : List α, (match aside, other with
      | _, [] => some aside
      | [], _ => some other
      | [a], _ => some (other ++ [a])
      | _, _ => none) = some rest → rest.Perm (aside ++ other) := by
    intro aside other h
    split at h
    · simp_all
    · simp_all
    · rw [← Option.some.inj h]
      exact List.perm_append_comm
    · cases h
  cases side with
  | front => exact key first second h
  | back => exact (key second first h).trans List.perm_append_comm

theorem finish_perm {side : Side} {patience : Nat} {first second : List α} {more : Unit → Merged α}
    (h : (more ()).1.Perm (first ++ second)) : (side.finish patience first second more).1.Perm (first ++ second) := by
  unfold finish
  split
  · exact rest?_perm ‹_›
  · exact h

end Side

theorem mergeFrom_perm (side : Side) (below : α → α → Bool) (fuel patience : Nat) (pace : Pace)
    (first second : List α) : (mergeFrom side below fuel patience pace first second).1.Perm (first ++ second) := by
  induction fuel generalizing patience pace first second with
  | zero => simp [mergeFrom]
  | succ fuel ih =>
    rcases first with _ | ⟨a, first⟩
    · simp [mergeFrom]
    rcases second with _ | ⟨b, second⟩
    · cases pace <;> simp [mergeFrom]
    have takeSecond : ∀ {m : Merged α} {front back : List α}, m.1.Perm (front ++ back) →
        (Merged.behind [b] m).1.Perm (front ++ b :: back) := fun h =>
      (h.cons b).trans List.perm_middle.symm
    cases pace with
    | single wonFirst wonSecond =>
      simp only [mergeFrom]
      split
      · exact takeSecond (Side.finish_perm (ih ..))
      · exact (Side.finish_perm (ih ..)).cons a
    | stretches =>
      simp only [mergeFrom]
      generalize side.stretch (fun x => !below b x) (a :: first) = n
      conv => rhs; rw [← List.take_append_drop n (a :: first), List.append_assoc]
      refine List.Perm.append_left _ (Side.finish_perm (takeSecond (Side.finish_perm ?_)))
      split
      · rename_i hleft
        rw [hleft, List.nil_append]
      · rename_i c left hleft
        generalize side.stretch (fun x => below x c) second = m
        have hmove : (second.take m ++ (c :: left ++ second.drop m)).Perm (c :: left ++ second) := by
          conv => rhs; rw [← List.take_append_drop m second]
          rw [← List.append_assoc, ← List.append_assoc]
          exact List.perm_append_comm.append_right _
        rw [hleft]
        refine (List.Perm.append_left _ (Side.finish_perm ((Side.finish_perm ?_).cons c))).trans hmove
        split
        · exact ih ..
        · exact ih ..

theorem mergeApart_perm (below : α → α → Bool) (patience : Nat) (first second : List α) :
    (mergeApart below patience first second).1.Perm (first ++ second) := by
  unfold mergeApart
  split
  · conv => rhs; rw [← List.take_append_drop 1 second]
    refine (List.Perm.append_left _ (Side.finish_perm (mergeFrom_perm ..))).trans ?_
    rw [← List.append_assoc, ← List.append_assoc]
    exact List.perm_append_comm.append_right _
  · refine (List.reverse_perm _).trans ?_
    refine (List.Perm.append_left _ (Side.finish_perm (mergeFrom_perm ..))).trans ?_
    rw [← List.append_assoc, List.take_append_drop]
    exact (List.reverse_perm first).append (List.reverse_perm second)

theorem merge_perm (below : α → α → Bool) (patience : Nat) (first second : List α) :
    (merge below patience first second).1.Perm (first ++ second) := by
  unfold merge
  split
  · simp
  · rename_i b second
    generalize countAhead (fun x => !below b x) first 0 = n
    dsimp only
    split
    · exact .refl _
    · rename_i a _
      generalize countAhead (fun x => below x a) (b :: second) ((b :: second).length - 1) = m
      conv => rhs; rw [← List.take_append_drop n first, ← List.take_append_drop m (b :: second)]
      rw [List.append_assoc, List.append_assoc, ← List.append_assoc (first.drop n)]
      refine List.Perm.append_left _ (List.Perm.append_right _ ?_)
      split
      · simp_all
      · exact mergeApart_perm ..

end LedgerSearch.Sorting
