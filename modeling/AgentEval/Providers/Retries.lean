import AgentEval.Providers.Http

/-!
# What `requestJson` tries again

A call against a sequence of outcomes, one for each attempt. The policy that `http.ts` states: at
most so many retries, and a further fetch only after a response with status 429 or 5xx.

* `Call.attempt_spec` — one attempt.
* `play_spec` — the attempts of a call.
* **`retries_follow_policy_iff`**: the sequences of outcomes for which the policy is kept.
-/

namespace AgentEval.Providers.Http

open Js

/-- How an attempt goes. A body is read as JSON when the response is `ok`, and else as text. -/
inductive Outcome where
  /-- `fetch` rejects. -/
  | failed (e : JsError)
  /-- The timer fires before there is a response. -/
  | timeout
  /-- There is a response; its body reads like this, or is cut off. -/
  | answered (res : Response) (json : Except JsError JsVal) (text : Except JsError JsString)

/-- The events of an attempt. -/
def Outcome.events : Outcome → List Event
  | failed e => [.fetched (.error e)]
  | timeout => [.timeout]
  | answered res json text => [.fetched (.ok res), if res.ok then .json json else .text text]

/-- The statuses after which a request is to be tried again.
Source: `http.ts`, "Only 429 and 5xx are retried" -/
def TransientStatus (status : ℕ) : Prop := status = 429 ∨ 500 ≤ status ∧ status ≤ 599

/-- A response with such a status. -/
def Outcome.Transient : Outcome → Prop
  | answered res _ _ => TransientStatus res.status
  | _ => False

/-- A failure that is no abort. -/
def Broken {α : Type} (x : Except JsError α) : Prop := ∃ e, x = .error e ∧ e.name ≠ js "AbortError"

/-- What was read is not broken. -/
theorem not_broken_ok {α : Type} (a : α) : ¬ Broken (.ok a : Except JsError α) := by
  rintro ⟨e, h, -⟩
  cases h

/-- What rejects is broken, unless it was aborted. -/
theorem broken_error_iff {α : Type} {e : JsError} :
    Broken (.error e : Except JsError α) ↔ e.name ≠ js "AbortError" := by
  constructor
  · rintro ⟨e', h, hname⟩
    cases h
    exact hname
  · exact fun hname => ⟨e, rfl, hname⟩

/-- After what an attempt is followed by another, as long as there are retries left. -/
def Outcome.Retried : Outcome → Prop
  | failed e => e.name ≠ js "AbortError"
  | timeout => False
  | answered res json text =>
    if res.ok then Broken json
    else Broken text ∨ (∃ body, text = .ok body) ∧ res.status ∉ [400, 401, 403, 404, 408, 504]

/-- After what the policy has no further attempt, and there is one: `fetch` rejects; the body of a
successful response cannot be read; or a status that is none of those listed is refused, or any but
429 and 5xx when the body cannot be read. -/
def Outcome.Mishandled : Outcome → Prop
  | failed e => e.name ≠ js "AbortError"
  | timeout => False
  | answered res json text =>
    res.ok = true ∧ Broken json ∨
      res.ok = false ∧ ¬ TransientStatus res.status ∧
        (Broken text ∨ (∃ body, text = .ok body) ∧ res.status ∉ [400, 401, 403, 404, 408])

/-- What is mishandled is what is tried again against the policy. -/
theorem Outcome.mishandled_iff {x : Outcome} : x.Mishandled ↔ x.Retried ∧ ¬ x.Transient := by
  cases x with
  | failed e => exact (and_iff_left not_false).symm
  | timeout => exact iff_of_false id fun h => h.1
  | answered res json text =>
    simp only [Mishandled, Retried, Transient]
    by_cases hok : res.ok = true
    · have hstatus : ¬ TransientStatus res.status := by
        unfold Response.ok at hok
        unfold TransientStatus
        rw [decide_eq_true_iff] at hok
        omega
      rw [if_pos hok]
      simp [hok, hstatus]
    · have hstatus : ¬ TransientStatus res.status →
          (res.status ∉ [400, 401, 403, 404, 408, 504] ↔
            res.status ∉ [400, 401, 403, 404, 408]) := by
        unfold TransientStatus
        intro h
        simp only [List.mem_cons, List.not_mem_nil, or_false]
        omega
      rw [if_neg hok]
      simp only [hok, false_and, false_or, Bool.false_eq_true, true_and]
      constructor
      · rintro ⟨h, hbody⟩
        exact ⟨by rwa [hstatus h], h⟩
      · rintro ⟨hbody, h⟩
        exact ⟨h, by rwa [← hstatus h]⟩

variable {toLowerCase : JsString → JsString} {o : HttpOptions} {c : Call}

/-- The first attempts of a call, each with its wait. -/
def play (toLowerCase : JsString → JsString) (o : HttpOptions) (outcomes : ℕ → Outcome) : ℕ → Call
  | 0 => ({} : Call).run toLowerCase o [.call]
  | n + 1 => (play toLowerCase o outcomes n).run toLowerCase o ((outcomes n).events ++ [.wake])

/-- A call against a sequence of outcomes, until it is over. -/
def requestJson (toLowerCase : JsString → JsString) (o : HttpOptions) (outcomes : ℕ → Outcome) :
    Call :=
  play toLowerCase o outcomes (o.maxRetries + 1)

/-! ## One attempt -/

/-- A refused response is tried again unless its status is one of six. -/
theorem categorize_retryable {status : ℕ} {body : JsString} :
    (categorize toLowerCase status body = .rateLimited ∨
        categorize toLowerCase status body = .providerError) ↔
      status ∉ [400, 401, 403, 404, 408, 504] := by
  unfold categorize
  dsimp only
  simp only [List.mem_cons, List.not_mem_nil, or_false]
  split_ifs
  all_goals simp
  all_goals omega

/-- What catches an error: the call is over, or it waits to try again. -/
theorem Call.caught_spec (c : Call) (e : JsError) :
    (e.name ≠ js "AbortError" ∧ c.attempt ≠ o.maxRetries ∧
      ∃ err ms, c.caught o e = { c with lastError := some err, phase := .waiting ms }) ∨
    ((e.name = js "AbortError" ∨ c.attempt = o.maxRetries) ∧
      ∃ r, c.caught o e = { c with phase := .settled r }) := by
  unfold caught
  split_ifs with hname haborted hattempt
  · exact .inr ⟨.inl hname, _, rfl⟩
  · exact .inr ⟨.inl hname, _, rfl⟩
  · exact .inr ⟨.inr hattempt, _, rfl⟩
  · exact .inl ⟨hname, hattempt, _, _, rfl⟩

/-- What is made of a refused response. -/
theorem Call.refused_spec (c : Call) (res : Response) (body : JsString) :
    (res.status ∉ [400, 401, 403, 404, 408, 504] ∧ c.attempt ≠ o.maxRetries ∧
      ∃ err ms, c.refused toLowerCase o res body =
        { c with lastError := some err, phase := .waiting ms }) ∨
    ((res.status ∈ [400, 401, 403, 404, 408, 504] ∨ c.attempt = o.maxRetries) ∧
      ∃ err r, c.refused toLowerCase o res body =
        { c with lastError := some err, phase := .settled r }) := by
  have hretryable : (responseError toLowerCase o res body).retryable = some false ↔
      res.status ∈ [400, 401, 403, 404, 408, 504] := by
    rw [← not_iff_not, ← @categorize_retryable toLowerCase res.status body]
    unfold responseError
    simp [or_iff_not_imp_left]
  unfold refused
  dsimp only
  split_ifs with h
  · rw [hretryable] at h
    exact .inr ⟨h, _, _, rfl⟩
  · rw [hretryable, not_or] at h
    exact .inl ⟨h.1, h.2, _, _, rfl⟩

/-- A call that is over stays as it is. -/
theorem Call.run_settled {r : Except ProviderError Reply} (h : c.phase = .settled r)
    (events : List Event) :
    (c.run toLowerCase o events).phase = .settled r ∧
      (c.run toLowerCase o events).fetches = c.fetches := by
  induction events generalizing c with
  | nil => exact ⟨h, rfl⟩
  | cons e events ih =>
    have hstep : (c.step toLowerCase o e).phase = .settled r ∧
        (c.step toLowerCase o e).fetches = c.fetches := by
      cases e with
      | abort =>
        simp only [step, h]
        split_ifs
        · exact ⟨h, rfl⟩
        · exact ⟨rfl, rfl⟩
      | _ => simp [step, h]
    obtain ⟨hphase, hfetches⟩ := ih hstep.1
    exact ⟨hphase, hfetches.trans hstep.2⟩

/-- The end of a wait starts the next attempt. -/
theorem Call.step_wake {ms : Number} (h : c.phase = .waiting ms) (hlt : c.attempt < o.maxRetries) :
    c.step toLowerCase o .wake =
      { c with attempt := c.attempt + 1, phase := .fetching, fetches := c.fetches + 1 } := by
  simp only [step, h, begin]
  exact if_pos hlt

/-- What ends an attempt: it goes on to wait, or the call is over. -/
structure Call.Ended (o : HttpOptions) (again : Prop) (c d : Call) : Prop where
  attempt : d.attempt = c.attempt
  fetches : d.fetches = c.fetches
  waits : again → c.attempt ≠ o.maxRetries → ∃ ms, d.phase = .waiting ms
  settles : ¬ again ∨ c.attempt = o.maxRetries → ∃ r, d.phase = .settled r

/-- What catches an error ends an attempt. -/
theorem Call.ended_caught (c : Call) (e : JsError) :
    c.Ended o (e.name ≠ js "AbortError") (c.caught o e) := by
  rcases c.caught_spec (o := o) e with ⟨hname, hattempt, err, ms, h⟩ | ⟨hend, r, h⟩
  · rw [h]
    exact ⟨rfl, rfl, fun _ _ => ⟨ms, rfl⟩, fun hnot => absurd (hnot.resolve_left (not_not.mpr hname))
      hattempt⟩
  · rw [h]
    exact ⟨rfl, rfl, fun hname hattempt => absurd (hend.resolve_left hname) hattempt,
      fun _ => ⟨r, rfl⟩⟩

/-- A refused response does. -/
theorem Call.ended_refused (c : Call) (res : Response) (body : JsString) :
    c.Ended o (res.status ∉ [400, 401, 403, 404, 408, 504])
      (c.refused toLowerCase o res body) := by
  rcases @Call.refused_spec toLowerCase o c res body with
    ⟨hstatus, hattempt, err, ms, h⟩ | ⟨hend, err, r, h⟩
  · rw [h]
    exact ⟨rfl, rfl, fun _ _ => ⟨ms, rfl⟩,
      fun hnot => absurd (hnot.resolve_left (not_not.mpr hstatus)) hattempt⟩
  · rw [h]
    exact ⟨rfl, rfl, fun hstatus hattempt => absurd (hend.resolve_left hstatus) hattempt,
      fun _ => ⟨r, rfl⟩⟩

/-- An attempt whose body is read. -/
theorem Call.Ended.of_reading {again : Prop} {d : Call} {res : Response}
    (h : { c with phase := .reading res }.Ended o again d) : c.Ended o again d :=
  ⟨h.attempt, h.fetches, h.waits, h.settles⟩

/-- An attempt of which more is said than whether it is tried again. -/
theorem Call.Ended.congr {p q : Prop} {d : Call} (hpq : p ↔ q) (h : c.Ended o p d) :
    c.Ended o q d :=
  ⟨h.attempt, h.fetches, fun hq => h.waits (hpq.mpr hq),
    fun hq => h.settles (hq.imp_left (mt hpq.mp))⟩

/-- **One attempt** ends as its outcome has it. -/
theorem Call.ended_events (h : c.phase = .fetching) (x : Outcome) :
    c.Ended o x.Retried (c.run toLowerCase o x.events) := by
  cases x with
  | failed e =>
    have hrun : c.run toLowerCase o (Outcome.failed e).events = c.caught o e := by
      simp [Outcome.events, run, step, h]
    rw [hrun]
    exact c.ended_caught e
  | timeout =>
    have hrun : c.run toLowerCase o Outcome.timeout.events = c.caught o abortError := by
      simp [Outcome.events, run, step, h]
    rw [hrun]
    exact (c.ended_caught abortError).congr (iff_of_false (fun hname => hname rfl) id)
  | answered res json text =>
    apply Call.Ended.of_reading (c := c) (d := c.run toLowerCase o _)
    unfold Outcome.Retried
    by_cases hok : res.ok = true
    · simp only [if_pos hok]
      cases json with
      | ok data =>
        have hrun : c.run toLowerCase o (Outcome.answered res (.ok data) text).events =
            { c with phase := .settled (.ok ⟨data, res.requestId, res.latencyMs⟩) } := by
          simp [Outcome.events, run, step, h, hok]
        rw [hrun]
        exact ⟨rfl, rfl, fun hbroken => absurd hbroken (not_broken_ok data), fun _ => ⟨_, rfl⟩⟩
      | error e =>
        have hrun : c.run toLowerCase o (Outcome.answered res (.error e) text).events =
            { c with phase := .reading res }.caught o e := by
          simp [Outcome.events, run, step, h, hok]
        rw [hrun]
        exact (Call.ended_caught _ e).congr broken_error_iff.symm
    · simp only [if_neg hok]
      cases text with
      | ok body =>
        have hrun : c.run toLowerCase o (Outcome.answered res json (.ok body)).events =
            { c with phase := .reading res }.refused toLowerCase o res body := by
          simp [Outcome.events, run, step, h, hok]
        rw [hrun]
        refine (Call.ended_refused _ res body).congr ?_
        constructor
        · exact fun hstatus => .inr ⟨⟨body, rfl⟩, hstatus⟩
        · rintro (hbroken | ⟨-, hstatus⟩)
          · exact absurd hbroken (not_broken_ok body)
          · exact hstatus
      | error e =>
        have hrun : c.run toLowerCase o (Outcome.answered res json (.error e)).events =
            { c with phase := .reading res }.caught o e := by
          simp [Outcome.events, run, step, h, hok]
        rw [hrun]
        refine (Call.ended_caught _ e).congr ?_
        constructor
        · exact fun hname => .inl (broken_error_iff.mpr hname)
        · rintro (hbroken | ⟨⟨body, hbody⟩, -⟩)
          · exact broken_error_iff.mp hbroken
          · cases hbody

/-! ## The attempts of a call -/

/-- Several events after others. -/
theorem Call.run_append (c : Call) (xs ys : List Event) :
    c.run toLowerCase o (xs ++ ys) = (c.run toLowerCase o xs).run toLowerCase o ys :=
  List.foldl_append ..

/-- How far the first attempts have come: they were all tried again, and the next one has begun; or
there was a last one. -/
inductive Reached (o : HttpOptions) (outcomes : ℕ → Outcome) (n : ℕ) (c : Call) : Prop where
  | running (hphase : c.phase = .fetching) (hattempt : c.attempt = n) (hle : n ≤ o.maxRetries)
      (hfetches : c.fetches = n + 1) (hretried : ∀ j < n, (outcomes j).Retried)
  | ended (k : ℕ) (r : Except ProviderError Reply) (hphase : c.phase = .settled r)
      (hk : k ≤ o.maxRetries) (hfetches : c.fetches = k + 1)
      (hretried : ∀ j < k, (outcomes j).Retried)
      (hlast : (outcomes k).Retried → k = o.maxRetries)

/-- **One more attempt.** -/
theorem Reached.step {outcomes : ℕ → Outcome} {n : ℕ} (h : Reached o outcomes n c) :
    Reached o outcomes (n + 1)
      (c.run toLowerCase o ((outcomes n).events ++ [.wake])) := by
  cases h with
  | ended k r hphase hk hfetches hretried hlast =>
    obtain ⟨hphase', hfetches'⟩ :=
      @Call.run_settled toLowerCase o _ _ hphase ((outcomes n).events ++ [.wake])
    exact .ended k r hphase' hk (hfetches'.trans hfetches) hretried hlast
  | running hphase hattempt hle hfetches hretried =>
    have hended := @Call.ended_events toLowerCase o _ hphase (outcomes n)
    rw [Call.run_append]
    by_cases hagain : (outcomes n).Retried ∧ n ≠ o.maxRetries
    · obtain ⟨ms, hwaiting⟩ := hended.waits hagain.1 (hattempt ▸ hagain.2)
      have hlt : n < o.maxRetries := lt_of_le_of_ne hle hagain.2
      have hwake := @Call.step_wake toLowerCase _ _ _ hwaiting
        ((hended.attempt.trans hattempt).symm ▸ hlt)
      unfold Call.run
      rw [List.foldl_cons, List.foldl_nil]
      change Reached o outcomes (n + 1) (Call.step toLowerCase o (c.run toLowerCase o _) .wake)
      rw [hwake]
      refine .running rfl ?_ hlt ?_ ?_
      · change (c.run toLowerCase o _).attempt + 1 = n + 1
        rw [hended.attempt, hattempt]
      · change (c.run toLowerCase o _).fetches + 1 = n + 1 + 1
        rw [hended.fetches, hfetches]
      · intro j hj
        rcases Nat.lt_succ_iff_lt_or_eq.mp hj with hj | rfl
        · exact hretried j hj
        · exact hagain.1
    · have hnot : ¬ (outcomes n).Retried ∨ c.attempt = o.maxRetries := by
        rw [hattempt]
        exact (not_and_or.mp hagain).imp_right not_not.mp
      obtain ⟨r, hsettled⟩ := hended.settles hnot
      obtain ⟨hphase', hfetches'⟩ :=
        @Call.run_settled toLowerCase o _ _ hsettled [.wake]
      refine .ended n r hphase' hle ?_ hretried fun hn => ?_
      · rw [hfetches', hended.fetches, hfetches]
      · exact hattempt.symm.trans (hnot.resolve_left (not_not.mpr hn))

/-- **The attempts of a call.** -/
theorem reached_play (outcomes : ℕ → Outcome) (n : ℕ) :
    Reached o outcomes n (play toLowerCase o outcomes n) := by
  induction n with
  | zero =>
    refine .running rfl rfl (Nat.zero_le _) rfl fun j hj => absurd hj (Nat.not_lt_zero j)
  | succ n ih => exact ih.step

/-- **A call is over after its last attempt**, which is the first that is not tried again. -/
theorem requestJson_spec (outcomes : ℕ → Outcome) :
    ∃ k r, (requestJson toLowerCase o outcomes).phase = .settled r ∧ k ≤ o.maxRetries ∧
      (requestJson toLowerCase o outcomes).fetches = k + 1 ∧ (∀ j < k, (outcomes j).Retried) ∧
      ((outcomes k).Retried → k = o.maxRetries) := by
  cases @reached_play toLowerCase o outcomes (o.maxRetries + 1) with
  | running hphase hattempt hle hfetches hretried => omega
  | ended k r hphase hk hfetches hretried hlast =>
    exact ⟨k, r, hphase, hk, hfetches, hretried, hlast⟩

/-- The policy: at most one attempt and the retries, and each further one after a response with
status 429 or 5xx.
Source: `http.ts`, "Retry policy is deliberately narrow" -/
structure FollowsPolicy (o : HttpOptions) (outcomes : ℕ → Outcome) (c : Call) : Prop where
  fetches_le : c.fetches ≤ o.maxRetries + 1
  transient : ∀ i, i + 1 < c.fetches → (outcomes i).Transient

/-- **Retries follow the policy** exactly when no attempt with a retry left, that the retries come to,
is mishandled. -/
theorem retries_follow_policy_iff (toLowerCase : JsString → JsString) (o : HttpOptions)
    (outcomes : ℕ → Outcome) :
    FollowsPolicy o outcomes (requestJson toLowerCase o outcomes) ↔
      ∀ i < o.maxRetries, (∀ j < i, (outcomes j).Retried) → ¬ (outcomes i).Mishandled := by
  obtain ⟨k, r, -, hk, hfetches, hretried, hlast⟩ :=
    @requestJson_spec toLowerCase o outcomes
  constructor
  · intro h i hi hbefore hmishandled
    obtain ⟨hi', htransient⟩ := Outcome.mishandled_iff.mp hmishandled
    have hik : i < k := by
      by_contra hle
      rcases (not_lt.mp hle).lt_or_eq with hlt | rfl
      · exact absurd (hlast (hbefore k hlt)) (by omega)
      · exact absurd (hlast hi') hi.ne
    exact htransient (h.transient i (by omega))
  · intro h
    refine ⟨by omega, fun i hi => ?_⟩
    have hik : i < k := by omega
    by_contra htransient
    exact h i (hik.trans_le hk) (fun j hj => hretried j (hj.trans hik))
      (Outcome.mishandled_iff.mpr ⟨hretried i hik, htransient⟩)

/-- The connection is reset before the first response. -/
def resetOnce : ℕ → Outcome
  | 0 => .failed ⟨js "TypeError", js "fetch failed"⟩
  | _ => .answered ⟨200, none, none, .ofNat 5⟩ (.ok .null) (.ok [])

/-- The response is there, and its body is no JSON. -/
def unparsedOnce : ℕ → Outcome
  | 0 => .answered ⟨200, none, none, .ofNat 5⟩
      (.error ⟨js "SyntaxError", js "Unexpected end of JSON input"⟩) (.ok [])
  | _ => .answered ⟨200, none, none, .ofNat 5⟩ (.ok .null) (.ok [])

/-- The request cannot be processed. -/
def unprocessable (_ : ℕ) : Outcome :=
  .answered ⟨422, none, none, .ofNat 5⟩ (.ok .null) (.ok [])

/-- A first attempt after what there is another. -/
theorem one_lt_fetches {outcomes : ℕ → Outcome} (h : (outcomes 0).Retried)
    (hretries : 0 < o.maxRetries) : 1 < (requestJson toLowerCase o outcomes).fetches := by
  obtain ⟨k, r, -, -, hfetches, -, hlast⟩ :=
    @requestJson_spec toLowerCase o outcomes
  rw [hfetches]
  apply Nat.succ_lt_succ
  apply Nat.pos_of_ne_zero
  rintro rfl
  exact hretries.ne (hlast h)

/-- A transport failure, a successful response and a client error that are tried again. -/
theorem policy_not_followed :
    ¬ FollowsPolicy { provider := js "openai" } resetOnce
        (requestJson id { provider := js "openai" } resetOnce) ∧
      ¬ FollowsPolicy { provider := js "openai" } unparsedOnce
        (requestJson id { provider := js "openai" } unparsedOnce) ∧
      ¬ FollowsPolicy { provider := js "openai" } unprocessable
        (requestJson id { provider := js "openai" } unprocessable) := by
  refine ⟨fun h => ?_, fun h => ?_, fun h => ?_⟩
  · have hname : (js "TypeError") ≠ js "AbortError" := by simp
    exact h.transient 0 (one_lt_fetches hname (by decide))
  · have hname : (js "SyntaxError") ≠ js "AbortError" := by simp
    have hretried : (unparsedOnce 0).Retried := by
      simp only [unparsedOnce, Outcome.Retried, Response.ok]
      exact broken_error_iff.mpr hname
    have htransient := h.transient 0 (one_lt_fetches hretried (by decide))
    simp [unparsedOnce, Outcome.Transient, TransientStatus] at htransient
  · have hretried : (unprocessable 0).Retried := by
      simp only [unprocessable, Outcome.Retried, Response.ok]
      exact .inr ⟨⟨_, rfl⟩, by decide⟩
    have htransient := h.transient 0 (one_lt_fetches hretried (by decide))
    simp [unprocessable, Outcome.Transient, TransientStatus] at htransient

end AgentEval.Providers.Http
