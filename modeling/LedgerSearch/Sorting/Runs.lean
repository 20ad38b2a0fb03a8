import LedgerSearch.Sorting.Merge

/-! # Sorting by runs
Keys that are no numbers are neither below nor above any other, and then the outcome depends on which
items are compared. A list is cut into runs, short ones are filled up, and neighbouring runs are
merged in the order of the powers of the boundaries between them. Where all items can be compared
every stable sort gives the same list, and there items are just inserted (`sortBy_eq_sort`). -/
namespace LedgerSearch.Sorting

variable {α : Type}

/-- Puts an item before or behind the middle of a list, and in the same way into that half. -/
def place (below : α → α → Bool) (a : α) (items : List α) : List α :=
  match _h : items.drop (items.length / 2) with
  | [] => [a]
  | middle :: after =>
    if below a middle then place below a (items.take (items.length / 2)) ++ middle :: after
    else items.take (items.length / 2) ++ middle :: place below a after
termination_by items.length
decreasing_by
  all_goals
    have hlen := congrArg List.length _h
    rw [List.length_drop, List.length_cons] at hlen
  · rw [List.length_take]
    omega
  · omega

/-- Splits a list where it ceases to go on from each item to the next. -/
def splitRun (goesOn : α → α → Bool) (last : α) : List α → List α × List α
  | [] => ([], [])
  | b :: rest =>
    if goesOn last b then
      let (run, others) := splitRun goesOn b rest
      (b :: run, others)
    else ([], b :: rest)

/-- The run at the start of a list, turned round where it falls, and what follows it. -/
def firstRun (below : α → α → Bool) : List α → List α × List α
  | a :: b :: rest =>
    if below b a then
      let (run, others) := splitRun (fun x y => below y x) b rest
      ((a :: b :: run).reverse, others)
    else
      let (run, others) := splitRun (fun x y => !below y x) b rest
      (a :: b :: run, others)
  | items => (items, [])

/-- The length up to which runs are filled: from 32 to 64, so that the number of runs is a power of two
or a little less. -/
def leastRun (n : Nat) (odd : Bool) : Nat :=
  if n < 64 then (if odd then n + 1 else n) else leastRun (n / 2) (odd || n % 2 == 1)
termination_by n

/-- Cuts a list into runs, at most `fuel` of them, each filled up with the items that follow it. -/
def cutRuns (below : α → α → Bool) (least : Nat) : Nat → List α → List (List α)
  | _, [] => []
  | 0, items => [items]
  | fuel + 1, items =>
    let (run, rest) := firstRun below items
    let missing := least - run.length
    (rest.take missing).foldl (fun sorted x => place below x sorted) run :: cutRuns below least fuel (rest.drop missing)

/-- The first binary place at which two parts of a whole differ. -/
def powerFrom (whole : Nat) : Nat → Nat → Nat → Nat
  | 0, _, _ => 0
  | fuel + 1, low, high =>
    if whole ≤ low then 1 + powerFrom whole fuel (2 * (low - whole)) (2 * (high - whole))
    else if whole ≤ high then 1
    else 1 + powerFrom whole fuel (2 * low) (2 * high)

/-- The power of the boundary between two neighbouring runs, by the places of their middles. -/
def power (whole start length next : Nat) : Nat :=
  powerFrom whole (whole + 1) (2 * start + length) (2 * start + length + length + next)

/-- A run that waits to be merged, and the power of the boundary behind it. -/
structure Pending (α : Type) where
  items : List α
  power : Nat

/-- Merges a run with those before it, as long as they have a higher power than the boundary behind it. -/
def collapse (below : α → α → Bool) (power patience : Nat) (run : List α) : List (Pending α) → List (Pending α) × Nat
  | [] => ([⟨run, power⟩], patience)
  | last :: rest =>
    if power < last.power then
      let m := merge below patience last.items run
      collapse below power m.2 m.1 rest
    else (⟨run, power⟩ :: last :: rest, patience)

/-- Merges all runs that wait, the shorter neighbour of the last but one first. -/
def finishRuns (below : α → α → Bool) : Nat → Nat → List α → List (List α) → List α
  | _, _, run, [] => run
  | fuel + 1, patience, run, before :: first :: rest =>
    if first.length < run.length then
      let m := merge below patience first before
      finishRuns below fuel m.2 run (m.1 :: rest)
    else
      let m := merge below patience before run
      finishRuns below fuel m.2 m.1 (first :: rest)
  | _, patience, run, [before] => (merge below patience before run).1
  | 0, _, run, waiting => waiting.reverse.flatten ++ run

/-- Merges runs, the first of which starts at a place in the whole list. -/
def mergeRuns (below : α → α → Bool) (whole start patience : Nat) (waiting : List (Pending α)) (run : List α) :
    List (List α) → List α
  | [] => finishRuns below waiting.length patience run (waiting.map Pending.items)
  | next :: rest =>
    let (waiting, patience) := collapse below (power whole start run.length next.length) patience run waiting
    mergeRuns below whole (start + run.length) patience waiting next rest

/-- Sorts by a strict comparison that need not be consistent, the lowest first. -/
def runSort (below : α → α → Bool) (items : List α) : List α :=
  match cutRuns below (leastRun items.length false) items.length items with
  | [] => []
  | run :: rest => mergeRuns below items.length 0 longStretch [] run rest

/-- Sorts by a strict comparison, the lowest first, whether or not all items can be compared. -/
def sortBy (isComparable : α → Bool) (below : α → α → Bool) (items : List α) : List α :=
  if items.all isComparable then sort (fun a b => !below b a) items else runSort below items

/-- Sorts by a strict comparison, the highest first. -/
def sortDownBy (isComparable : α → Bool) (below : α → α → Bool) (items : List α) : List α :=
  (sortBy isComparable below items.reverse).reverse

theorem place_perm (below : α → α → Bool) (a : α) (items : List α) : (place below a items).Perm (a :: items) := by
  fun_induction place below a items with
  | case1 items h =>
    have hlen := congrArg List.length h
    have : items = [] := by
      apply List.eq_nil_of_length_eq_zero
      simp only [List.length_drop, List.length_nil] at hlen
      omega
    simp [this]
  | case2 items middle after h hlt ih =>
    have hsplit := List.take_append_drop (items.length / 2) items
    rw [h] at hsplit
    exact (ih.append_right _).trans (.of_eq (by rw [List.cons_append, hsplit]))
  | case3 items middle after h hlt ih =>
    have hsplit := List.take_append_drop (items.length / 2) items
    rw [h] at hsplit
    refine ((ih.cons middle).append_left _).trans ?_
    refine (List.Perm.append_left _ (.swap a middle after)).trans ?_
    exact List.perm_middle.trans (.of_eq (by rw [hsplit]))

theorem foldl_place_perm (below : α → α → Bool) (items sorted : List α) :
    (items.foldl (fun s x => place below x s) sorted).Perm (sorted ++ items) := by
  induction items generalizing sorted with
  | nil => simp
  | cons a rest ih =>
    refine (ih _).trans ?_
    exact ((place_perm below a sorted).append_right rest).trans List.perm_middle.symm

theorem splitRun_append (goesOn : α → α → Bool) (last : α) (items : List α) :
    (splitRun goesOn last items).1 ++ (splitRun goesOn last items).2 = items := by
  fun_induction splitRun goesOn last items with
  | case1 => rfl
  | case2 last b rest h run others hsplit ih => simp_all
  | case3 => rfl

theorem firstRun_perm (below : α → α → Bool) (items : List α) :
    ((firstRun below items).1 ++ (firstRun below items).2).Perm items := by
  unfold firstRun
  split
  · rename_i a b rest
    split
    · have happ := splitRun_append (fun x y => below y x) b rest
      exact ((List.reverse_perm _).append_right _).trans (.of_eq (by simp [happ]))
    · have happ := splitRun_append (fun x y => !below y x) b rest
      exact .of_eq (by simp [happ])
  · simp

theorem flatten_cutRuns_perm (below : α → α → Bool) (least fuel : Nat) (items : List α) :
    (cutRuns below least fuel items).flatten.Perm items := by
  induction fuel generalizing items with
  | zero => cases items <;> simp [cutRuns]
  | succ fuel ih =>
    cases items with
    | nil => simp [cutRuns]
    | cons a items =>
      simp only [cutRuns, List.flatten_cons]
      refine ((foldl_place_perm ..).append (ih _)).trans ?_
      rw [List.append_assoc, List.take_append_drop]
      exact firstRun_perm below (a :: items)

/-- The items of waiting runs, the last of which comes first. -/
def waitingItems (waiting : List (Pending α)) : List α := (waiting.map Pending.items).reverse.flatten

theorem collapse_perm (below : α → α → Bool) (power patience : Nat) (run : List α) (waiting : List (Pending α)) :
    (waitingItems (collapse below power patience run waiting).1).Perm (waitingItems waiting ++ run) := by
  induction waiting generalizing patience run with
  | nil => simp [collapse, waitingItems]
  | cons last rest ih =>
    simp only [collapse]
    split
    · refine (ih _ _).trans ?_
      simp only [waitingItems, List.map_cons, List.reverse_cons, List.flatten_append, List.flatten_cons, List.flatten_nil,
        List.append_nil, List.append_assoc]
      exact (merge_perm ..).append_left _
    · simp [waitingItems]

theorem finishRuns_perm (below : α → α → Bool) (fuel patience : Nat) (run : List α) (waiting : List (List α)) :
    (finishRuns below fuel patience run waiting).Perm (waiting.reverse.flatten ++ run) := by
  fun_induction finishRuns below fuel patience run waiting with
  | case1 => simp
  | case2 fuel patience run before first rest h m ih =>
    refine ih.trans ?_
    simp only [List.reverse_cons, List.flatten_append, List.flatten_cons, List.flatten_nil, List.append_nil,
      List.append_assoc]
    refine List.Perm.append_left _ ?_
    rw [← List.append_assoc first]
    exact (merge_perm ..).append_right run
  | case3 fuel patience run before first rest h m ih =>
    refine ih.trans ?_
    simp only [List.reverse_cons, List.flatten_append, List.flatten_cons, List.flatten_nil, List.append_nil,
      List.append_assoc]
    exact (merge_perm ..).append_left _ |>.append_left _
  | case4 => simpa using merge_perm ..
  | case5 => exact .refl _

theorem mergeRuns_perm (below : α → α → Bool) (whole start patience : Nat) (waiting : List (Pending α)) (run : List α)
    (runs : List (List α)) :
    (mergeRuns below whole start patience waiting run runs).Perm (waitingItems waiting ++ run ++ runs.flatten) := by
  induction runs generalizing start patience waiting run with
  | nil => simpa [mergeRuns, waitingItems] using finishRuns_perm ..
  | cons next rest ih =>
    simp only [mergeRuns]
    refine (ih ..).trans ?_
    rw [List.flatten_cons, ← List.append_assoc]
    exact ((collapse_perm ..).append_right next).append_right _

theorem runSort_perm (below : α → α → Bool) (items : List α) : (runSort below items).Perm items := by
  have h := flatten_cutRuns_perm below (leastRun items.length false) items.length items
  unfold runSort
  split
  · rename_i hruns
    rwa [hruns] at h
  · rename_i run rest hruns
    rw [hruns] at h
    exact (mergeRuns_perm ..).trans (by simpa [waitingItems] using h)

theorem sortBy_perm (isComparable : α → Bool) (below : α → α → Bool) (items : List α) :
    (sortBy isComparable below items).Perm items := by
  unfold sortBy
  split
  · exact sort_perm _ _
  · exact runSort_perm _ _

theorem sortBy_eq_sort {isComparable : α → Bool} {items : List α} (h : items.all isComparable = true)
    (below : α → α → Bool) : sortBy isComparable below items = sort (fun a b => !below b a) items := if_pos h

end LedgerSearch.Sorting
