import LedgerSearch.Engine.Session
import LedgerSearch.Proofs.OpenRanges
import LedgerSearch.Proofs.Results
import Mathlib.Data.List.Induction

/-!
# Searches in any order

Searches of one engine are started and resumed in any order. A search that is resumed after a later one was
started ends without an answer, whatever it would have found; any other search ends as it would have ended
without giving way.
-/

namespace LedgerSearch.Engine

open Search Outcome

variable {e : Engine} {now : Instant} {turns more : List Turn} {i : Nat} {req : Request} {run : Run}

/-- What happens next: a search is started, or the one that was started at a place is resumed. -/
inductive Turn
  | start (req : Request)
  | resume (place : Nat)

namespace Turn

def request? : Turn → Option Request
  | .start req => some req
  | .resume _ => none

def resumes (place : Nat) : Turn → Bool
  | .start _ => false
  | .resume i => i == place

/-- The turn starts or resumes the search at a place, when so many searches have been started before it. -/
def Moves (place started : Nat) : Turn → Prop
  | .start _ => started = place
  | .resume i => i = place

end Turn

/-- The requests of the searches that are started, in order. -/
def requests (turns : List Turn) : List Request := turns.filterMap Turn.request?

@[simp] theorem requests_append (turns more : List Turn) : requests (turns ++ more) = requests turns ++ requests more :=
  List.filterMap_append

/-- A search that was started. -/
structure Call where
  request : Request
  progress : Progress

/-- The searches of an engine in the order of their starts, and the last ticket drawn. -/
structure Session where
  latest : Nat
  calls : List Call

/-- Resumes a search that waits; nothing is left to resume of one that has ended. -/
def Call.resumed (e : Engine) (now : Instant) (latest : Nat) (call : Call) : Call :=
  match call.progress with
  | .waiting run => ⟨call.request, e.resume now latest run⟩
  | .ended _ => call

namespace Session

def take (e : Engine) (now : Instant) (s : Session) : Turn → Session
  | .start req =>
    let (progress, latest) := e.start now s.latest req
    ⟨latest, s.calls ++ [⟨req, progress⟩]⟩
  | .resume i => ⟨s.latest, s.calls.modify i (Call.resumed e now s.latest)⟩

end Session

/-- The session after turns, none of its searches having been started before. -/
def after (e : Engine) (now : Instant) (turns : List Turn) : Session := turns.foldl (Session.take e now) ⟨0, []⟩

theorem after_append_singleton (turns : List Turn) (turn : Turn) :
    after e now (turns ++ [turn]) = (after e now turns).take e now turn := by
  rw [after, List.foldl_append]
  rfl

@[simp] theorem Call.request_resumed {latest : Nat} (call : Call) :
    (call.resumed e now latest).request = call.request := by
  unfold Call.resumed
  split <;> rfl

theorem calls_start {s : Session} (h : s.latest = s.calls.length) :
    (s.take e now (.start req)).calls[i]? =
      if s.calls.length = i then some ⟨req, e.advance now ⟨i + 1, req, [], e.batches⟩⟩ else s.calls[i]? := by
  simp only [Session.take, start, h]
  split
  · rename_i hi
    rw [← hi, List.getElem?_concat_length]
  · rename_i hi
    rcases Nat.lt_or_gt_of_ne hi with hlt | hgt
    · rw [List.getElem?_eq_none (by simp; omega), List.getElem?_eq_none (by omega)]
    · rw [List.getElem?_append_left hgt]

theorem calls_resume {s : Session} {j : Nat} : (s.take e now (.resume j)).calls[i]? =
    if j = i then s.calls[i]?.map (Call.resumed e now s.latest) else s.calls[i]? := by
  rw [Session.take, List.getElem?_modify]
  split <;> simp

theorem keepAll_append (now : Instant) (req : Request) (batches more : List (List Record)) :
    keepAll now req (batches ++ more) = do
      let kept ← keepAll now req batches
      let rest ← keepAll now req more
      return kept ++ rest := by
  simp only [keepAll_eq_keep, List.flatten_append, keep_append]

/-- A run that belongs to the search at a place: it has the ticket of that place, and what it has kept is what the
search keeps of the batches that it has taken. -/
structure Run.IsAt (e : Engine) (now : Instant) (i : Nat) (req : Request) (run : Run) : Prop where
  ticket : run.ticket = i + 1
  request : run.request = req
  kept : ∃ taken, e.batches = taken ++ run.rest ∧ keepAll now req taken = .ok run.kept

theorem Run.isAt_fresh (e : Engine) (now : Instant) (i : Nat) (req : Request) :
    Run.IsAt e now i req ⟨i + 1, req, [], e.batches⟩ := ⟨rfl, rfl, [], rfl, rfl⟩

/-- A run takes its next batch, or it ends as the search does that never gives way. -/
theorem Run.IsAt.advance_cases (h : run.IsAt e now i req) :
    (∃ next, e.advance now run = .waiting next ∧ next.IsAt e now i req ∧ next.rest.length < run.rest.length) ∨
      e.advance now run = .ended ((e.search now req).map some) := by
  obtain ⟨hticket, rfl, taken, hbatches, hkept⟩ := h
  -- what is left to do does not depend on how the batches so far were taken
  have hsearch : e.search now run.request =
      keepAll now run.request run.rest >>= fun rest => e.respond now run.request (run.kept ++ rest) := by
    rw [search, hbatches, keepAll_append, hkept]
    simp only [ok_bind, bind_assoc, pure_eq_ok]
  unfold advance
  cases hrest : run.rest with
  | nil =>
    right
    rw [hsearch, hrest, keepAll, ok_bind, List.append_nil]
  | cons batch rest =>
    cases hbatch : keep now run.request batch with
    | error fault =>
      right
      simp only [hsearch, hrest, keepAll, hbatch]
      rfl
    | ok found =>
      left
      refine ⟨{ run with kept := run.kept ++ found, rest := rest }, by simp only [hbatch], ⟨hticket, rfl, ?_⟩, by simp⟩
      refine ⟨taken ++ [batch], by simp [hbatches, hrest], ?_⟩
      simp [keepAll_append, keepAll, hkept, hbatch]

/-- Every search has drawn a ticket, and a search that waits is a run of its own that has taken a batch. -/
structure Session.IsSound (e : Engine) (now : Instant) (s : Session) : Prop where
  latest : s.latest = s.calls.length
  waiting : ∀ (i : Nat) req run, s.calls[i]? = some ⟨req, .waiting run⟩ →
    run.IsAt e now i req ∧ run.rest.length < e.batches.length

theorem Session.IsSound.take {s : Session} (h : s.IsSound e now) (turn : Turn) : (s.take e now turn).IsSound e now := by
  cases turn with
  | start fresh =>
    refine ⟨by simp [Session.take, start, h.latest], fun i req run hcall => ?_⟩
    rw [calls_start h.latest] at hcall
    split at hcall
    · rcases (Run.isAt_fresh e now i fresh).advance_cases with ⟨next, hnext, hat, hless⟩ | hended
      · rw [hnext] at hcall
        cases hcall
        exact ⟨hat, hless⟩
      · rw [hended] at hcall
        cases hcall
    · exact h.waiting i req run hcall
  | resume j =>
    refine ⟨by simp [Session.take, h.latest], fun i req run hcall => ?_⟩
    rw [calls_resume] at hcall
    split at hcall
    · obtain ⟨⟨req', progress⟩, hbefore, hresumed⟩ := Option.map_eq_some_iff.1 hcall
      cases progress with
      | ended answer => cases hresumed
      | waiting old =>
        obtain ⟨hat, hless⟩ := h.waiting i req' old hbefore
        simp only [Call.resumed, resume] at hresumed
        split at hresumed
        · rcases hat.advance_cases with ⟨next, hnext, hat', hless'⟩ | hended
          · rw [hnext] at hresumed
            cases hresumed
            exact ⟨hat', Nat.lt_trans hless' hless⟩
          · rw [hended] at hresumed
            cases hresumed
        · cases hresumed
    · exact h.waiting i req run hcall

theorem isSound_after (e : Engine) (now : Instant) (turns : List Turn) : (after e now turns).IsSound e now := by
  induction turns using List.reverseRecOn with
  | nil => exact ⟨rfl, by simp [after]⟩
  | append_singleton turns turn ih =>
    rw [after_append_singleton]
    exact ih.take turn

theorem map_request_after (e : Engine) (now : Instant) (turns : List Turn) :
    (after e now turns).calls.map Call.request = requests turns := by
  induction turns using List.reverseRecOn with
  | nil => rfl
  | append_singleton turns turn ih =>
    rw [after_append_singleton, requests_append, ← ih]
    cases turn with
    | start req => simp [Session.take, requests, Turn.request?]
    | resume j =>
      refine List.ext_getElem? fun i => ?_
      simp only [requests, List.filterMap_cons, Turn.request?, List.filterMap_nil, List.append_nil, List.getElem?_map]
      rw [calls_resume]
      split
      · cases (after e now turns).calls[i]? <;> simp
      · rfl

theorem length_calls_after (e : Engine) (now : Instant) (turns : List Turn) :
    (after e now turns).calls.length = (requests turns).length := by
  rw [← map_request_after e now turns, List.length_map]

section Turns

variable {s : Session} {answer : Except Fault (Option Response)}

theorem calls_take (hs : s.IsSound e now) {call : Call} (hcall : s.calls[i]? = some call) (turn : Turn) :
    (s.take e now turn).calls[i]? = some (if turn.resumes i then call.resumed e now s.latest else call) := by
  cases turn with
  | start fresh =>
    have hlt : i < s.calls.length := (List.getElem?_eq_some_iff.1 hcall).1
    rw [calls_start hs.latest, if_neg (by omega), hcall]
    rfl
  | resume j =>
    rw [calls_resume, hcall]
    by_cases hj : j = i
    · simp [hj, Turn.resumes]
    · simp [hj, Turn.resumes]

theorem Session.IsSound.resume_eq (hs : s.IsSound e now) (hcall : s.calls[i]? = some ⟨req, .waiting run⟩) :
    e.resume now s.latest run = if i + 1 < s.calls.length then .ended (.ok none) else e.advance now run := by
  have hlt : i < s.calls.length := (List.getElem?_eq_some_iff.1 hcall).1
  rw [resume, (hs.waiting i req run hcall).1.ticket, hs.latest]
  by_cases hlater : i + 1 < s.calls.length
  · rw [if_neg (by omega), if_pos hlater]
  · rw [if_pos (by omega), if_neg hlater]

theorem Run.IsAt.eq_search {answer} (hat : run.IsAt e now i req) (hended : e.advance now run = .ended answer) :
    answer = (e.search now req).map some := by
  rcases hat.advance_cases with ⟨next, hnext, -⟩ | hsearch
  · rw [hnext] at hended
    cases hended
  · rw [hsearch] at hended
    exact (Progress.ended.inj hended).symm

/-- A search ends at a turn of its own, without an answer exactly if a later one has been started. -/
theorem answer_of_take (hs : s.IsSound e now) (hopen : ∀ answer, s.calls[i]? ≠ some ⟨req, .ended answer⟩) {turn : Turn}
    (h : (s.take e now turn).calls[i]? = some ⟨req, .ended answer⟩) : turn.Moves i s.calls.length ∧
      answer = if i + 1 < s.calls.length then .ok none else (e.search now req).map some := by
  cases hcall : s.calls[i]? with
  | none =>
    cases turn with
    | start fresh =>
      rw [calls_start hs.latest, hcall] at h
      split at h
      · rename_i hi
        obtain ⟨rfl, hended⟩ := Call.mk.inj (Option.some.inj h)
        exact ⟨hi, by rw [if_neg (by omega), (Run.isAt_fresh e now i fresh).eq_search hended]⟩
      · cases h
    | resume j =>
      rw [calls_resume, hcall] at h
      split at h <;> cases h
  | some call =>
    rw [calls_take hs hcall, Option.some.injEq] at h
    split at h
    · rename_i hresumes
      obtain ⟨req', progress⟩ := call
      cases progress with
      | ended given =>
        cases h
        exact absurd hcall (hopen answer)
      | waiting run =>
        obtain ⟨rfl, hended⟩ := Call.mk.inj h
        refine ⟨?_, ?_⟩
        · cases turn with
          | start fresh => cases hresumes
          | resume j => exact beq_iff_eq.1 hresumes
        · rw [hs.resume_eq hcall] at hended
          split at hended
          · rename_i hlater
            rw [if_pos hlater]
            exact (Progress.ended.inj hended).symm
          · rename_i hlast
            rw [if_neg hlast, (hs.waiting i _ run hcall).1.eq_search hended]
    · rw [h] at hcall
      exact absurd hcall (hopen answer)

end Turns

/-- An answer that was given stays. -/
theorem calls_append_of_ended {answer} (h : (after e now turns).calls[i]? = some ⟨req, .ended answer⟩)
    (more : List Turn) : (after e now (turns ++ more)).calls[i]? = some ⟨req, .ended answer⟩ := by
  induction more using List.reverseRecOn with
  | nil => rwa [List.append_nil]
  | append_singleton more turn ih =>
    rw [← List.append_assoc, after_append_singleton, calls_take (isSound_after e now _) ih]
    split <;> rfl

theorem exists_turn_of_ended {answer} (h : (after e now turns).calls[i]? = some ⟨req, .ended answer⟩) :
    ∃ before turn rest, turns = before ++ turn :: rest ∧ turn.Moves i (requests before).length ∧
      (∀ answer, (after e now before).calls[i]? ≠ some ⟨req, .ended answer⟩) ∧
      answer = if i + 1 < (requests before).length then .ok none else (e.search now req).map some := by
  induction turns using List.reverseRecOn with
  | nil => cases h
  | append_singleton turns turn ih =>
    by_cases hended : ∃ answer, (after e now turns).calls[i]? = some ⟨req, .ended answer⟩
    · -- the turn came after the end and changes nothing
      obtain ⟨given, hgiven⟩ := hended
      have hstays := calls_append_of_ended hgiven [turn]
      rw [h] at hstays
      cases hstays
      obtain ⟨before, first, rest, rfl, hfirst⟩ := ih hgiven
      exact ⟨before, first, rest ++ [turn], by simp, hfirst⟩
    · have hopen := not_exists.1 hended
      rw [after_append_singleton] at h
      have hanswer := answer_of_take (isSound_after e now turns) hopen h
      rw [length_calls_after] at hanswer
      exact ⟨turns, turn, [], rfl, hanswer.1, hopen, hanswer.2⟩

/-- A search that waits behind a later one keeps nothing more, and gives no answer when it is resumed. -/
theorem calls_append_of_superseded (h : (after e now turns).calls[i]? = some ⟨req, .waiting run⟩)
    (hlater : i + 1 < (requests turns).length) (more : List Turn) : (after e now (turns ++ more)).calls[i]? =
      some ⟨req, if more.any (Turn.resumes i) then .ended (.ok none) else .waiting run⟩ := by
  induction more using List.reverseRecOn with
  | nil => rwa [List.append_nil]
  | append_singleton more turn ih =>
    have hs := isSound_after e now (turns ++ more)
    rw [← List.append_assoc, after_append_singleton, calls_take hs ih, List.any_append, List.any_cons, List.any_nil,
      Bool.or_false]
    cases hany : more.any (Turn.resumes i) with
    | true => cases turn.resumes i <;> rfl
    | false =>
      rw [hany] at ih
      cases turn.resumes i with
      | false => rfl
      | true =>
        have hresume := hs.resume_eq ih
        rw [length_calls_after, requests_append, List.length_append, if_pos (by omega)] at hresume
        simp [Call.resumed, hresume]

/-- The last search answers after at most as many turns as there are batches left, and one more. -/
theorem calls_append_of_last (h : (after e now turns).calls[i]? = some ⟨req, .waiting run⟩)
    (hlast : (requests turns).length = i + 1) (hmore : requests more = [])
    (hturns : run.rest.length < more.countP (Turn.resumes i)) :
    (after e now (turns ++ more)).calls[i]? = some ⟨req, .ended ((e.search now req).map some)⟩ := by
  -- each turn that resumes the search takes a batch, and no turn starts another search
  induction more generalizing turns run with
  | nil => simp at hturns
  | cons turn more ih =>
    have hs := isSound_after e now turns
    have hstep := calls_take hs h turn
    rw [← after_append_singleton] at hstep
    obtain ⟨hturn, hmore⟩ : requests [turn] = [] ∧ requests more = [] := by
      rwa [← List.append_eq_nil_iff, ← requests_append]
    have hlast' : (requests (turns ++ [turn])).length = i + 1 := by rw [requests_append, hturn, List.append_nil, hlast]
    rw [List.append_cons]
    cases hresumes : turn.resumes i with
    | false =>
      rw [hresumes] at hstep
      exact ih hstep hlast' hmore (by simpa [List.countP_cons, hresumes] using hturns)
    | true =>
      simp only [hresumes, if_true, Call.resumed, hs.resume_eq h, length_calls_after, hlast, Nat.lt_irrefl, if_false] at hstep
      rw [List.countP_cons, if_pos hresumes] at hturns
      rcases (hs.waiting i req run h).1.advance_cases with ⟨next, hnext, -, hless⟩ | hended
      · rw [hnext] at hstep
        exact ih hstep hlast' hmore (by omega)
      · rw [hended] at hstep
        exact calls_append_of_ended hstep more

/-- What a session has done for the searches that its turns start: whatever their order, an answer is that of the
search that does not give way, and it is withheld exactly if a later search was started before the turn at which it
was due. -/
structure Serves (e : Engine) (now : Instant) (turns : List Turn) : Prop where
  requested : (after e now turns).calls.map Call.request = requests turns
  ended : ∀ (i : Nat) req answer, (after e now turns).calls[i]? = some ⟨req, .ended answer⟩ →
    ∃ before turn rest, turns = before ++ turn :: rest ∧ turn.Moves i (requests before).length ∧
      (∀ answer, (after e now before).calls[i]? ≠ some ⟨req, .ended answer⟩) ∧
      answer = if i + 1 < (requests before).length then .ok none else (e.search now req).map some
  superseded : ∀ (i : Nat) req run, (after e now turns).calls[i]? = some ⟨req, .waiting run⟩ →
    i + 1 < (requests turns).length → ∀ more : List Turn, (after e now (turns ++ more)).calls[i]? =
      some ⟨req, if more.any (Turn.resumes i) then .ended (.ok none) else .waiting run⟩
  last : ∀ (i : Nat) req, (requests turns)[i]? = some req → (requests turns).length = i + 1 →
    ∀ more : List Turn, requests more = [] → e.batches.length ≤ more.countP (Turn.resumes i) →
      (after e now (turns ++ more)).calls[i]? = some ⟨req, .ended ((e.search now req).map some)⟩

theorem answers_last (hreq : (requests turns)[i]? = some req) (hlast : (requests turns).length = i + 1)
    (hmore : requests more = []) (hturns : e.batches.length ≤ more.countP (Turn.resumes i)) :
    (after e now (turns ++ more)).calls[i]? = some ⟨req, .ended ((e.search now req).map some)⟩ := by
  rw [← map_request_after e now turns, List.getElem?_map] at hreq
  obtain ⟨⟨_, progress⟩, hcall, rfl⟩ := Option.map_eq_some_iff.1 hreq
  cases progress with
  | waiting run =>
    have hless := ((isSound_after e now turns).waiting i _ run hcall).2
    exact calls_append_of_last hcall hlast hmore (by omega)
  | ended answer =>
    obtain ⟨before, turn, rest, rfl, -, -, hanswer⟩ := exists_turn_of_ended hcall
    have hbefore : (requests before).length ≤ i + 1 := by
      rw [← hlast, requests_append, List.length_append]
      omega
    rw [hanswer, if_neg (by omega)] at hcall
    exact calls_append_of_ended hcall more

theorem serves (e : Engine) (now : Instant) (turns : List Turn) : e.Serves now turns where
  requested := map_request_after e now turns
  ended _ _ _ := exists_turn_of_ended
  superseded _ _ _ := calls_append_of_superseded
  last _ _ hreq hlast _ := answers_last hreq hlast

/-- What a caller has received: nothing yet, or a response, or none, or a fault. -/
def Progress.received : Progress → Option (Except Fault Bool)
  | .waiting _ => none
  | .ended answer => some (answer.map Option.isSome)

def received (s : Session) : List (Option (Except Fault Bool)) := s.calls.map fun call => call.progress.received

/-- A search for doors in four documents is resumed, then a second search is started, and each is resumed again. -/
def doorTurns : List Turn :=
  [.start sampleRequest, .resume 0, .start sampleRequest, .resume 1, .resume 0, .resume 1]

theorem serves_doors : sampleEngine.Serves Instant.epoch doorTurns ∧
    received (after sampleEngine Instant.epoch doorTurns) = [some (.ok false), some (.ok true)] :=
  ⟨serves .., by decide +kernel⟩

/-- The only search of an engine whose records have texts and finite amounts ends with a fault. -/
theorem received_endlessRange : (∀ r ∈ billEngine.records, IsSound r) ∧ received (after billEngine Instant.epoch
    [.start (plainRequest endlessRange), .resume 0]) = [some (.error .undefinedProximity)] :=
  ⟨List.forall_mem_cons.2 ⟨isSound_oakDoor, List.forall_mem_singleton.2 isSound_postBill⟩, by decide +kernel⟩

end LedgerSearch.Engine
