import AgentEval.Js.Coerce
import AgentEval.Js.Json
import AgentEval.Js.Arith
import AgentEval.Regex.Boundary

/-!
# `providers/http.ts`: a request with its timeouts and retries

A call of `requestJson` is followed event by event: the call, what its fetches and bodies settle
with, the timer of an attempt, the end of a wait, and the abort of the caller's signal. Between two
events the call waits at one of the points of `Phase`. The listener that passes an abort on to a
fetch stays attached through the wait after it, where there is nothing left for it to abort.
`String.prototype.toLowerCase`, which goes through the tables of Unicode, is a parameter.

* `Call.step` — what an event does.
* `Call.run` — what several do.
-/

namespace AgentEval.Providers.Http

open Js Regex

/-! ## Errors -/

/-- Source: `types.ts`, `ErrorCategory`; those that `http.ts` raises. -/
inductive ErrorCategory where
  | authenticationError | authorizationError | modelNotFound | rateLimited | timeout | providerError
  | contextLength | contentFilter | invalidRequest | networkError | unknown
  deriving DecidableEq

/-- Source: `types.ts`, `ProviderError` -/
structure ProviderError where
  /-- The kind of the error. -/
  category : ErrorCategory
  /-- What is wrong. -/
  message : JsString
  /-- The provider. -/
  provider : JsString
  /-- The model, when there is one. -/
  model : Option JsString := none
  /-- The status of the response. -/
  httpStatus : Option ℕ := none
  /-- The provider's own code. -/
  providerCode : Option JsString := none
  /-- The identifier of the request. -/
  providerRequestId : Option JsString := none
  /-- Seconds, when the provider says how long to wait. -/
  retryAfterSeconds : Option Number := none
  /-- Whether it may be tried again. -/
  retryable : Option Bool := none

section redact

/-- Letters, digits and the underscore. -/
def isWordUnit (u : UInt16) : Bool :=
  isDigit u || (65 ≤ u.toNat && u.toNat ≤ 90) || (97 ≤ u.toNat && u.toNat ≤ 122) || u == 95

/-- The same letter of either case. -/
def sameLetter (u v : UInt16) : Bool :=
  let lower := fun w : UInt16 => if 65 ≤ w.toNat ∧ w.toNat ≤ 90 then w.toNat + 32 else w.toNat
  lower u == lower v

/-- `\b(sk|xai|gsk|key)-[A-Za-z0-9_-]{8,}` -/
def keyPattern : Pattern (Option UInt16 × UInt16) :=
  .seq (.opening isWordUnit)
    (.seq (.oneOf (["sk", "xai", "gsk", "key"].map fun w => .text (· == ·) (js w)))
      (.seq (.symbol (· == 45)) (.atLeast (.symbol fun u => isWordUnit u || u == 45) 8)))

/-- `Bearer`, white space, eight or more units of a token, and `=` signs, in either case. -/
def bearerPattern : Pattern (Option UInt16 × UInt16) :=
  .seq (.text sameLetter (js "Bearer"))
    (.seq (.plus (.symbol isWhiteSpace))
      (.seq (.atLeast (.symbol fun u => isWordUnit u || decide (u ∈ js ".~+/-")) 8)
        (.star (.symbol (· == 61)))))

/-- `"api[_-]?key"\s*:\s*"[^"]*"`, in either case. -/
def apiKeyPattern : Pattern (Option UInt16 × UInt16) :=
  .seq (.text sameLetter (js "\"api"))
    (.seq (.opt (.symbol fun u => u == 95 || u == 45))
      (.seq (.text sameLetter (js "key\""))
        (.seq (.star (.symbol isWhiteSpace))
          (.seq (.symbol (· == 58))
            (.seq (.star (.symbol isWhiteSpace))
              (.seq (.symbol (· == 34))
                (.seq (.star (.symbol (· != 34))) (.symbol (· == 34)))))))))

/-- Source: `types.ts`, `redact` -/
def redact (text : JsString) : JsString :=
  let text := keyPattern.replaceWords (fun m => m.take 6 ++ js "...redacted") text
  let text := bearerPattern.replaceWords (fun _ => js "Bearer ...redacted") text
  apiKeyPattern.replaceWords (fun _ => js "\"api_key\":\"...redacted\"") text

end redact

/-- `text.includes(word)` -/
def includes (text word : JsString) : Bool := text.tails.any word.isPrefixOf

/-- Source: `http.ts`, `categorize` -/
def categorize (toLowerCase : JsString → JsString) (status : ℕ) (body : JsString) :
    ErrorCategory :=
  if status = 401 then .authenticationError
  else if status = 403 then .authorizationError
  else if status = 404 then .modelNotFound
  else if status = 429 then .rateLimited
  else if status = 408 ∨ status = 504 then .timeout
  else if 500 ≤ status then .providerError
  else if status = 400 then
    let lower := toLowerCase body
    if includes lower (js "context length") || includes lower (js "too many tokens") ||
        includes lower (js "maximum context") then .contextLength
    else if includes lower (js "content filter") || includes lower (js "safety") ||
        includes lower (js "blocked") then .contentFilter
    else if includes lower (js "model") &&
        (includes lower (js "not found") || includes lower (js "does not exist")) then .modelNotFound
    else .invalidRequest
  else .providerError

/-- A property of what `JSON.parse` returns; only of `null` it cannot be read. -/
def property (v : JsVal) (key : JsString) : Option JsVal :=
  match v with
  | .null => none
  | .obj ps => some (getProp ps key)
  | _ => some .undefined

/-- The text of a property, if it is one. -/
def textProperty (v : JsVal) (key : JsString) : Option JsString :=
  match property v key with
  | some (.str s) => some s
  | _ => none

/-- A human-usable message out of whatever shape the provider returned.
Source: `http.ts`, `extractMessage` -/
def extractMessage (body : JsString) : JsString :=
  let found := (jsonParse body).bind fun json => (property json (js "error")).bind fun err =>
    match err with
    | .str s => some s
    | _ => textProperty err (js "message") <|> textProperty json (js "message") <|>
      textProperty json (js "detail")
  found.getD (body.take 400)

/-- `a ?? b` -/
def orElse (a b : JsVal) : JsVal :=
  match a with
  | .undefined | .null => b
  | _ => a

/-- The provider's own code, when it is a text that is not empty.
Source: `http.ts`, `providerCode`, and its use in `requestJson` -/
def providerCode (body : JsString) : Option JsString :=
  (jsonParse body).bind fun json => (property json (js "error")).bind fun err =>
    let field := fun key => (property err key).getD .undefined
    match orElse (field (js "code")) (orElse (field (js "type"))
        ((property json (js "code")).getD .undefined)) with
    | .str s => if s = [] then none else some s
    | _ => none

/-! ## A call -/

/-- Source: `http.ts`, `HttpOptions`; the signal is given. -/
structure HttpOptions where
  /-- The provider. -/
  provider : JsString
  /-- The model. -/
  model : Option JsString := none
  /-- Milliseconds for one attempt. -/
  timeoutMs : Number := .ofNat 60000
  /-- How often a request is tried again. -/
  maxRetries : ℕ := 2

/-- A response, as far as it is read before its body. -/
structure Response where
  /-- The status. -/
  status : ℕ
  /-- `x-request-id`, `request-id` or `x-amzn-requestid`. -/
  requestId : Option JsString := none
  /-- `retry-after` -/
  retryAfter : Option JsString := none
  /-- Milliseconds since the attempt was started. -/
  latencyMs : Number

/-- `res.ok` -/
def Response.ok (res : Response) : Bool := decide (200 ≤ res.status ∧ res.status ≤ 299)

/-- What a call returns.
Source: `http.ts`, `requestJson` -/
structure Reply where
  /-- The body. -/
  data : JsVal
  /-- The identifier of the request. -/
  requestId : Option JsString
  /-- How long the last attempt took. -/
  latencyMs : Number

/-- Where a call waits. -/
inductive Phase where
  /-- It has not been made. -/
  | idle
  /-- For `fetch`. -/
  | fetching
  /-- For the body of a response. -/
  | reading (res : Response)
  /-- For the next attempt. -/
  | waiting (ms : Number)
  /-- It is over. -/
  | settled (result : Except ProviderError Reply)

/-- A call of `requestJson`. -/
structure Call where
  /-- Whether the caller's signal is aborted. -/
  aborted : Bool := false
  /-- The retries so far. -/
  attempt : ℕ := 0
  /-- The last error. -/
  lastError : Option ProviderError := none
  /-- Where it waits. -/
  phase : Phase := .idle
  /-- How many fetches were started. -/
  fetches : ℕ := 0

/-- What can happen. -/
inductive Event where
  /-- The call is made. -/
  | call
  /-- The caller's signal is aborted. -/
  | abort
  /-- The timer of the attempt fires. -/
  | timeout
  /-- `fetch` settles. -/
  | fetched (result : Except JsError Response)
  /-- `res.json()` settles. -/
  | json (result : Except JsError JsVal)
  /-- `res.text()` settles. -/
  | text (result : Except JsError JsString)
  /-- The wait is over. -/
  | wake

section

variable (toLowerCase : JsString → JsString) (o : HttpOptions)

/-- An attempt is started, as long as there is one left.
Source: `http.ts`, `requestJson`, `while` -/
def Call.begin (c : Call) : Call :=
  if c.attempt ≤ o.maxRetries then { c with phase := .fetching, fetches := c.fetches + 1 }
  else { c with phase := .settled (.error (c.lastError.getD
    { category := .unknown, message := js "Request failed.", provider := o.provider })) }

/-- The wait that is made when the provider does not say how long. -/
def backoff (attempt : ℕ) : Number := .ofNat (min (2 ^ attempt * 500) 8000)

/-- What an aborted fetch rejects with. -/
def abortError : JsError := ⟨js "AbortError", js "This operation was aborted"⟩

/-- Source: `http.ts`, `requestJson`, `catch` -/
def Call.caught (c : Call) (e : JsError) : Call :=
  if e.name = js "AbortError" then
    if c.aborted then
      { c with phase := .settled (.error
        { category := .timeout, message := js "Request was aborted by the caller.",
          provider := o.provider, model := o.model, retryable := some false }) }
    else
      { c with phase := .settled (.error
        { category := .timeout,
          message := js "Request exceeded " ++ o.timeoutMs.toString ++ js "ms.",
          provider := o.provider, model := o.model, retryable := some true }) }
  else
    let err : ProviderError :=
      { category := .networkError, message := redact e.message, provider := o.provider,
        model := o.model, retryable := some true }
    if c.attempt = o.maxRetries then { c with phase := .settled (.error err) }
    else { c with lastError := some err, phase := .waiting (backoff c.attempt) }

/-- The seconds of a `retry-after` header, when they are a finite number. -/
def retryAfterSeconds (res : Response) : Option Number :=
  (res.retryAfter.filter (· ≠ [])).bind fun header =>
    if (Number.coerce header).isFinite then some (Number.coerce header) else none

/-- The error of a response that is not `ok`. -/
def responseError (res : Response) (body : JsString) : ProviderError :=
  let category := categorize toLowerCase res.status body
  { category := category, message := redact (extractMessage body), provider := o.provider,
    model := o.model, httpStatus := some res.status, providerCode := providerCode body,
    providerRequestId := res.requestId.filter (· ≠ []), retryAfterSeconds := retryAfterSeconds res,
    retryable := some (decide (category = .rateLimited ∨ category = .providerError)) }

/-- Source: `http.ts`, `requestJson`, from `res.text()` on -/
def Call.refused (c : Call) (res : Response) (body : JsString) : Call :=
  let err := responseError toLowerCase o res body
  let c := { c with lastError := some err }
  if err.retryable = some false ∨ c.attempt = o.maxRetries then
    { c with phase := .settled (.error err) }
  else
    { c with phase := .waiting (((retryAfterSeconds res).map fun s => s.mul (.ofNat 1000)).getD
      (backoff c.attempt)) }

/-- **What an event does.** An event that a call does not wait for changes nothing.
Source: `http.ts`, `requestJson` -/
def Call.step (c : Call) : Event → Call
  | .call =>
    match c.phase with
    | .idle => c.begin o
    | _ => c
  | .abort =>
    if c.aborted then c
    else
      match c.phase with
      | .fetching | .reading _ => { c with aborted := true }.caught o abortError
      | _ => { c with aborted := true }
  | .timeout =>
    match c.phase with
    | .fetching | .reading _ => c.caught o abortError
    | _ => c
  | .fetched result =>
    match c.phase, result with
    | .fetching, .ok res => { c with phase := .reading res }
    | .fetching, .error e => c.caught o e
    | _, _ => c
  | .json result =>
    match c.phase, result with
    | .reading res, .ok data =>
      if res.ok then { c with phase := .settled (.ok ⟨data, res.requestId, res.latencyMs⟩) } else c
    | .reading res, .error e => if res.ok then c.caught o e else c
    | _, _ => c
  | .text result =>
    match c.phase, result with
    | .reading res, .ok body => if res.ok then c else c.refused toLowerCase o res body
    | .reading res, .error e => if res.ok then c else c.caught o e
    | _, _ => c
  | .wake =>
    match c.phase with
    | .waiting _ => { c with attempt := c.attempt + 1 }.begin o
    | _ => c

/-- What several events do. -/
def Call.run (c : Call) (events : List Event) : Call := events.foldl (Call.step toLowerCase o) c

end

end AgentEval.Providers.Http
