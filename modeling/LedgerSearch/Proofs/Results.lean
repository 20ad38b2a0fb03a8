import LedgerSearch.Engine.Search
import LedgerSearch.Proofs.Outcome
import LedgerSearch.Proofs.StableOrder

/-!
# The results of a search

A search that ends with an answer returns exactly the records that the query finds and the selections let
pass, each once and scored, in one lexicographic order whose last criterion is the place in the corpus.
How the corpus is cut into batches makes no difference.
-/

namespace LedgerSearch.Engine

open Search Sorting Outcome

variable {e : Engine} {now : Instant} {req : Request}

theorem flatten_batchesOf {size : Nat} (hsize : 1 ≤ size) (records : List Record) :
    (batchesOf size records).flatten = records := by
  fun_induction batchesOf size records with
  | case1 records h =>
    rcases h with rfl | rfl
    · rfl
    · omega
  | case2 records h ih => rw [List.flatten_cons, ih, List.take_append_drop]

theorem keep_append (now : Instant) (req : Request) (records more : List Record) :
    keep now req (records ++ more) = do
      let kept ← keep now req records
      let rest ← keep now req more
      return kept ++ rest := by
  induction records with
  | nil => exact (bind_pure _).symm
  | cons r records ih =>
    simp only [List.cons_append, keep, ih, bind_assoc, pure_eq_ok, ok_bind]
    refine bind_congr fun kept => bind_congr fun found => bind_congr fun rest => ?_
    cases kept <;> simp

theorem keepAll_eq_keep (now : Instant) (req : Request) (batches : List (List Record)) :
    keepAll now req batches = keep now req batches.flatten := by
  induction batches with
  | nil => rfl
  | cons batch batches ih => rw [keepAll, ih, List.flatten_cons, keep_append]

/-- A search filters the corpus as one batch. -/
theorem search_eq (e : Engine) (now : Instant) (req : Request) :
    e.search now req = keep now req e.records >>= e.respond now req := by
  rw [search, keepAll_eq_keep, batches, flatten_batchesOf e.config.batchSize_pos]

theorem search_congr {e' : Engine} (hrecords : e'.records = e.records) (hlimits : e'.limits = e.limits)
    (horder : e'.config.order = e.config.order) : e'.search now req = e.search now req := by
  have hrespond : e'.respond now req = e.respond now req := by
    funext kept
    simp only [respond, orderOf, hlimits, horder]
  rw [search_eq, search_eq, hrecords, hrespond]

/-- The query finds the record and the selections let it pass. -/
def isKept (now : Instant) (req : Request) (r : Record) : Bool :=
  (holds r req.query).toOption == some true && (passes now r req.selections).toOption == some true

theorem isKept_of_keeps {r : Record} {kept : Bool} (h : keeps now req r = .ok kept) : isKept now req r = kept := by
  obtain ⟨found, hfound, hpass⟩ := bind_eq_ok.1 h
  cases found with
  | false =>
    have hkept : false = kept := by simpa using hpass
    simp [isKept, hfound, Except.toOption, ← hkept]
  | true =>
    have hpasses : passes now r req.selections = .ok kept := by simpa using hpass
    simp [isKept, hfound, hpasses, Except.toOption]

theorem keep_eq_ok {records kept : List Record} (h : keep now req records = .ok kept) :
    kept = records.filter (isKept now req) ∧ ∀ r ∈ records, keeps now req r = .ok (isKept now req r) := by
  induction records generalizing kept with
  | nil =>
    cases h
    exact ⟨rfl, by simp⟩
  | cons r rest ih =>
    obtain ⟨found, hfound, h⟩ := bind_eq_ok.1 h
    obtain ⟨more, hmore, h⟩ := bind_eq_ok.1 h
    obtain ⟨hfilter, hdecided⟩ := ih hmore
    have hkept := isKept_of_keeps hfound
    rw [pure_eq_ok, Except.ok.injEq] at h
    refine ⟨?_, List.forall_mem_cons.2 ⟨by rw [hfound, hkept], hdecided⟩⟩
    rw [List.filter_cons, hkept, ← hfilter, ← h]

theorem scoresOf_eq_ok {query : Text} {records : List Record} {pairs : List (Text × Nat)}
    (h : scoresOf query records = .ok pairs) : pairs.map Prod.fst = records.map Record.id ∧
      ∀ r ∈ records, ∃ points, score r query = .ok points ∧ (r.id, points) ∈ pairs := by
  induction records generalizing pairs with
  | nil =>
    cases h
    exact ⟨rfl, by simp⟩
  | cons r rest ih =>
    obtain ⟨points, hpoints, h⟩ := bind_eq_ok.1 h
    obtain ⟨more, hmore, h⟩ := bind_eq_ok.1 h
    obtain ⟨hids, hscored⟩ := ih hmore
    cases h
    refine ⟨by rw [List.map_cons, List.map_cons, hids], ?_⟩
    intro s hs
    rcases List.mem_cons.1 hs with rfl | hs
    · exact ⟨points, hpoints, List.mem_cons_self⟩
    · obtain ⟨n, hn, hmem⟩ := hscored s hs
      exact ⟨n, hn, List.mem_cons_of_mem _ hmem⟩

/-- Where a record stands in the corpus. -/
def position (e : Engine) (r : Record) : Nat := e.records.findIdx fun s => s.id == r.id

/-- The first record stands before the second in the corpus. -/
def StandsBefore (e : Engine) (a b : Record) : Prop := e.position a < e.position b

def isNoOlder (a b : Record) : Bool := Binary64.le (updateTime b) (updateTime a)

def scoresNoLess (scores : Entries Text Nat) (a b : Record) : Bool := scoreIn scores b ≤ scoreIn scores a

/-- A higher score ranks first, then a later update, then the place in the corpus; a blank query asks for
no score. -/
def RanksBefore (e : Engine) (query : Text) (scores : Entries Text Nat) : Record → Record → Prop :=
  if (Text.strip query).isEmpty then Lex isNoOlder e.StandsBefore
  else Lex (scoresNoLess scores) (Lex isNoOlder e.StandsBefore)

/-- An order by a time decides first, and the rank decides between records of one time. -/
def ComesBefore (e : Engine) (query : Text) (scores : Entries Text Nat) : Order → Record → Record → Prop
  | .relevance => e.RanksBefore query scores
  | .mostRecent => Lex isNoOlder (e.RanksBefore query scores)
  | .dueFirst => Lex (fun a b => Binary64.le (dueTime a) (dueTime b)) (e.RanksBefore query scores)
  | .dueLast => Lex (fun a b => Binary64.le (dueTime b) (dueTime a)) (e.RanksBefore query scores)

theorem position_getElem (distinct : (e.records.map Record.id).Nodup) {i : Nat} (hi : i < e.records.length) :
    e.position e.records[i] = i := by
  unfold position
  rw [List.findIdx_eq hi]
  refine ⟨beq_self_eq_true _, ?_⟩
  intro j hj
  rw [beq_eq_false_iff_ne]
  have hne := List.pairwise_iff_getElem.1 distinct j i (by simp; omega) (by simpa using hi) hj
  simpa using hne

theorem pairwise_standsBefore (distinct : (e.records.map Record.id).Nodup) :
    e.records.Pairwise e.StandsBefore := by
  rw [List.pairwise_iff_getElem]
  intro i j hi hj hij
  rwa [StandsBefore, position_getElem distinct hi, position_getElem distinct hj]

theorem isNumber_updateTime (r : Record) : (updateTime r).isNumber = true := Instant.isNumber_seconds _

theorem isNumber_dueTime (r : Record) : (dueTime r).isNumber = true := by
  unfold dueTime
  split
  · exact Instant.isNumber_seconds _
  · exact isNumber_updateTime r

theorem isPreorder_ofTime {time : Record → Binary64} (htime : ∀ r, (time r).isNumber = true) :
    IsPreorder fun a b => Binary64.le (time a) (time b) :=
  ⟨fun a b => Binary64.le_total (htime a) (htime b), Binary64.le_trans⟩

theorem pairwise_earliestFirst {time : Record → Binary64} (htime : ∀ r, (time r).isNumber = true)
    {next : Record → Record → Prop} {records : List Record} (h : records.Pairwise next) :
    (earliestFirst time records).Pairwise (Lex (fun a b => Binary64.le (time a) (time b)) next) :=
  pairwise_sortOn_lex time Binary64.le (isPreorder_ofTime htime) h

theorem pairwise_latestFirst {time : Record → Binary64} (htime : ∀ r, (time r).isNumber = true)
    {next : Record → Record → Prop} {records : List Record} (h : records.Pairwise next) :
    (latestFirst time records).Pairwise (Lex (fun a b => Binary64.le (time b) (time a)) next) :=
  pairwise_sortOn_lex time (fun a b => Binary64.le b a) (isPreorder_ofTime htime).flip h

theorem isPreorder_ranksBefore (points : Record → Nat) :
    IsPreorder fun a b => ranksBefore (points a, updateTime a) (points b, updateTime b) := by
  have htime := (isPreorder_ofTime isNumber_updateTime).flip
  constructor
  · intro a b
    simp only [ranksBefore, Bool.or_eq_true, Bool.and_eq_true, decide_eq_true_eq, beq_iff_eq]
    rcases Nat.lt_trichotomy (points a) (points b) with hlt | heq | hgt
    · exact .inr (.inl hlt)
    · exact (htime.total a b).imp (fun h => .inr ⟨heq, h⟩) fun h => .inr ⟨heq.symm, h⟩
    · exact .inl (.inl hgt)
  · intro a b c hab hbc
    simp only [ranksBefore, Bool.or_eq_true, Bool.and_eq_true, decide_eq_true_eq, beq_iff_eq] at hab hbc ⊢
    rcases hab with hab | ⟨hab, hta⟩
    · left
      omega
    · rcases hbc with hbc | ⟨hbc, htb⟩
      · left
        omega
      · exact .inr ⟨hab.trans hbc, htime.trans hta htb⟩

/-- A rank by score and time is an order by score that the time refines. -/
theorem lex_of_ranksBefore {scores : Entries Text Nat} {next : Record → Record → Prop} {a b : Record}
    (h : Lex (fun a b => ranksBefore (scoreIn scores a, updateTime a) (scoreIn scores b, updateTime b)) next a b) :
    Lex (scoresNoLess scores) (Lex isNoOlder next) a b := by
  obtain ⟨hle, hnext⟩ := h
  simp only [ranksBefore, Bool.or_eq_true, Bool.and_eq_true, decide_eq_true_eq, beq_iff_eq] at hle hnext
  refine ⟨by simp only [scoresNoLess, decide_eq_true_eq]; omega, ?_⟩
  intro htie
  simp only [scoresNoLess, decide_eq_true_eq] at htie
  obtain ⟨heq, htime⟩ : scoreIn scores a = scoreIn scores b ∧ isNoOlder a b = true := by
    rcases hle with hlt | hle
    · omega
    · exact hle
  exact ⟨htime, fun hback => hnext (.inr ⟨heq.symm, hback⟩)⟩

theorem pairwise_rank {query : Text} {scores : Entries Text Nat} {records : List Record}
    (h : records.Pairwise e.StandsBefore) : (rank query scores records).Pairwise (e.RanksBefore query scores) := by
  unfold rank RanksBefore
  split
  · exact pairwise_latestFirst isNumber_updateTime h
  · exact (pairwise_sortOn_lex _ ranksBefore (isPreorder_ranksBefore _) h).imp lex_of_ranksBefore

theorem pairwise_arrange {query : Text} {scores : Entries Text Nat} {records : List Record} (order : Order)
    (h : records.Pairwise (e.RanksBefore query scores)) :
    (order.arrange records).Pairwise (e.ComesBefore query scores order) := by
  cases order with
  | relevance => exact h
  | mostRecent => exact pairwise_latestFirst isNumber_updateTime h
  | dueFirst => exact pairwise_earliestFirst isNumber_dueTime h
  | dueLast => exact pairwise_latestFirst isNumber_dueTime h

theorem earliestFirst_perm (time : Record → Binary64) (records : List Record) :
    (earliestFirst time records).Perm records := sortOn_perm time Binary64.le records

theorem latestFirst_perm (time : Record → Binary64) (records : List Record) :
    (latestFirst time records).Perm records := sortOn_perm time (fun a b => Binary64.le b a) records

theorem rank_perm (query : Text) (scores : Entries Text Nat) (records : List Record) :
    (rank query scores records).Perm records := by
  unfold rank
  split
  · exact latestFirst_perm updateTime records
  · exact sortOn_perm (fun r => (scoreIn scores r, updateTime r)) ranksBefore records

theorem arrange_perm (order : Order) (records : List Record) : (order.arrange records).Perm records := by
  cases order with
  | relevance => exact .refl _
  | mostRecent => exact latestFirst_perm updateTime records
  | dueFirst => exact earliestFirst_perm dueTime records
  | dueLast => exact latestFirst_perm dueTime records

/-- What an answer says about the corpus: which records it holds, with which scores, and in which order. -/
structure Answers (e : Engine) (now : Instant) (req : Request) (order : Order) (res : Response) : Prop where
  decided : ∀ r ∈ e.records, keeps now req r = .ok (isKept now req r)
  perm : res.records.Perm (e.records.filter (isKept now req))
  total : res.total = (e.records.filter (isKept now req)).length
  scored : (Entries.keys res.scores).Perm (res.records.map Record.id)
  points : ∀ r ∈ res.records, score r req.query = .ok (scoreIn res.scores r)
  inOrder : res.records.Pairwise (e.ComesBefore req.query res.scores order)

/-- What an answer is made of: the scores of the kept records, their order and their grouping. -/
structure IsMadeOf (e : Engine) (now : Instant) (req : Request) (kept : List Record) (res : Response)
    (pairs : List (Text × Nat)) (order : Order) (grouping : Option Text) : Prop where
  scored : scoresOf req.query kept = .ok pairs
  ordered : orderOf e.config req = .ok order
  grouped : groupingOf req = .ok grouping
  counted : facets now res.records = .ok res.facets
  scores : res.scores = Entries.ofPairs pairs
  total : res.total = res.records.length
  records : res.records = order.arrange (rank req.query (Entries.ofPairs pairs) kept)
  groups : res.groups = groups grouping res.records
  limited : res.limited = e.limits.apply res.groups

section Responses

variable {kept : List Record} {res : Response} {pairs : List (Text × Nat)} {order : Order} {grouping : Option Text}

theorem IsMadeOf.perm (h : e.IsMadeOf now req kept res pairs order grouping) : res.records.Perm kept := by
  rw [h.records]
  exact (arrange_perm order _).trans (rank_perm ..)

theorem exists_isMadeOf (h : e.respond now req kept = .ok res) :
    ∃ pairs order grouping, e.IsMadeOf now req kept res pairs order grouping := by
  obtain ⟨scores, hscores, h⟩ := bind_eq_ok.1 h
  obtain ⟨pairs, hpairs, rfl⟩ := map_eq_ok.1 hscores
  obtain ⟨order, horder, h⟩ := bind_eq_ok.1 h
  obtain ⟨grouping, hgrouping, h⟩ := bind_eq_ok.1 h
  obtain ⟨found, hfound, h⟩ := bind_eq_ok.1 h
  cases h
  exact ⟨pairs, order, grouping, hpairs, horder, hgrouping, hfound, rfl, rfl, rfl, rfl, rfl⟩

/-- Once there are scores, an order, a grouping and facets, there is an answer. -/
theorem respond_ok {found : Entries Text (Entries Value Nat)} (hpairs : scoresOf req.query kept = .ok pairs)
    (horder : orderOf e.config req = .ok order) (hgrouping : groupingOf req = .ok grouping)
    (hfound : facets now (order.arrange (rank req.query (Entries.ofPairs pairs) kept)) = .ok found) :
    ∃ res, e.respond now req kept = .ok res := by
  rw [respond, hpairs, map_ok, ok_bind, horder, ok_bind, hgrouping, ok_bind, hfound, ok_bind]
  exact ⟨_, rfl⟩

theorem respond_eq_ok (h : e.respond now req kept = .ok res) :
    ∃ pairs order, scoresOf req.query kept = .ok pairs ∧ orderOf e.config req = .ok order ∧
      res.scores = Entries.ofPairs pairs ∧ res.total = res.records.length ∧
      res.records = order.arrange (rank req.query (Entries.ofPairs pairs) kept) := by
  obtain ⟨pairs, order, _, hmade⟩ := exists_isMadeOf h
  exact ⟨pairs, order, hmade.scored, hmade.ordered, hmade.scores, hmade.total, hmade.records⟩

end Responses

theorem search_answers {res : Response} (distinct : (e.records.map Record.id).Nodup) (h : e.search now req = .ok res) :
    (∃ order, orderOf e.config req = .ok order ∧ e.Answers now req order res) ∧
      ∀ e' : Engine, e'.records = e.records → e'.limits = e.limits → e'.config.order = e.config.order →
        e'.search now req = .ok res := by
  refine ⟨?_, fun e' hrecords hlimits horder => (search_congr hrecords hlimits horder).trans h⟩
  rw [search_eq] at h
  obtain ⟨kept, hkeep, h⟩ := bind_eq_ok.1 h
  obtain ⟨pairs, order, hpairs, horder, hscores, htotal, hrecords⟩ := respond_eq_ok h
  obtain ⟨hkept, hdecided⟩ := keep_eq_ok hkeep
  obtain ⟨hids, hscored⟩ := scoresOf_eq_ok hpairs
  have hperm : res.records.Perm kept := by
    rw [hrecords]
    exact (arrange_perm order _).trans (rank_perm ..)
  -- The identifiers of a filtered corpus are still distinct, so each score is found under its own.
  have hnodup : (Entries.keys pairs).Nodup := by
    rw [Entries.keys, hids, hkept]
    exact distinct.sublist (List.filter_sublist.map _)
  have hpairsOf := Entries.ofPairs_of_nodup hnodup
  refine ⟨order, horder, hdecided, hkept ▸ hperm, ?_, ?_, ?_, ?_⟩
  · rw [htotal, hperm.length_eq, hkept]
  · rw [hscores, hpairsOf, Entries.keys, hids]
    exact (hperm.map _).symm
  · intro r hr
    obtain ⟨points, hpoints, hmem⟩ := hscored r (hperm.mem_iff.1 hr)
    rw [hpoints, hscores, hpairsOf, scoreIn, Entries.find?_of_mem hnodup hmem, Option.getD_some]
  · rw [hrecords, hscores]
    apply pairwise_arrange
    apply pairwise_rank
    rw [hkept]
    exact (pairwise_standsBefore distinct).filter _

/-- A document with a title, a summary and the day in January when it was updated. -/
def sampleDocument (id title summary : String) (day : Nat) : Record :=
  { Record.bare id title (.document ⟨[], []⟩) with
    summary := summary.toText
    updatedAt := ⟨⟨2024, 1, day⟩, Clock.midnight, 0⟩ }

/-- Four documents, two in a batch. -/
def sampleEngine : Engine where
  records := [sampleDocument "a" "Door" "oak" 1, sampleDocument "b" "Frame" "for a door" 2,
    sampleDocument "c" "Window" "" 3, sampleDocument "d" "Door" "pine door" 2]
  config := ⟨2, 2, .mostRecent, by decide⟩
  limits := GroupLimits.default

def sampleRequest : Request := ⟨"door".toText, [], .null, .null⟩

theorem search_answers_doors : ∃ res, sampleEngine.search Instant.epoch sampleRequest = .ok res ∧
    res.records.map Record.id = ["d".toText, "b".toText, "a".toText] ∧
    (∃ order, orderOf sampleEngine.config sampleRequest = .ok order ∧
      sampleEngine.Answers Instant.epoch sampleRequest order res) ∧
    ∀ e' : Engine, e'.records = sampleEngine.records → e'.limits = sampleEngine.limits →
      e'.config.order = sampleEngine.config.order → e'.search Instant.epoch sampleRequest = .ok res := by
  have hids : (sampleEngine.search Instant.epoch sampleRequest).toOption.map (fun res => res.records.map Record.id) =
      some ["d".toText, "b".toText, "a".toText] := by decide +kernel
  cases h : sampleEngine.search Instant.epoch sampleRequest with
  | error fault =>
    rw [h] at hids
    cases hids
  | ok res =>
    rw [h] at hids
    exact ⟨res, rfl, Option.some.inj hids, search_answers (by decide) h⟩

end LedgerSearch.Engine
