import AgentEval.Js.Coerce
import AgentEval.Js.OwnKeys
import AgentEval.Providers.Http
import AgentEval.Regex.Whole

/-!
# `robustness/perturbations.ts`: rewriting a task and a submission together

Each rewriting is a function of a task and a submission that may not apply. The texts that explain
them in a report are left out. `String.prototype.toUpperCase`, which goes through the tables of
Unicode, is a parameter.
-/

namespace AgentEval.Robustness

open Js Regex
open AgentEval.Providers.Http (isWordUnit)

/-- Source: `canaries.ts`, `TextTask` -/
structure TextTask where
  /-- The identifier. -/
  id : JsString
  /-- What is asked. -/
  prompt : JsString
  /-- The expected answer, where an agent could read it. -/
  referenceAnswer : Option JsString := none
  /-- Where the evaluator reads its verdict from. -/
  evaluatorReadsPath : Option JsString := none
  /-- Whether a model judges. -/
  judged : Option Bool := none
  /-- The components of the reward. -/
  rewardComponents : Option (List JsString) := none

/-- Source: `types.ts`, `Perturbation.apply`, for a text; nothing where it does not apply. -/
abbrev Rewriting := TextTask → JsString → Option (TextTask × JsString)

/-! ## The parts of a text that are read -/

/-- Source: `asJsonObject`; the properties in the order in which the object lists them. -/
def asJsonObject (text : JsString) : Option Props :=
  let trimmed := trim text
  if trimmed.head? = some 123 then
    (jsonParse trimmed).bind fun parsed =>
      match parsed.inOrder with
      | .obj ps => some ps
      | _ => none
  else none

/-- Source: `asNumber` -/
def asNumber (text : JsString) : Option Number :=
  let trimmed := trim text
  if trimmed = [] then none
  else if (Number.coerce trimmed).isFinite then some (Number.coerce trimmed)
  else none

/-! ## The rewritings -/

/-- Source: `task-id-rename` -/
def taskIdRename : Rewriting := fun task submission =>
  some ({ task with id := task.id ++ js "-isomorph-9f2c" }, submission)

/-- Source: `submission-trailing-whitespace` -/
def submissionTrailingWhitespace : Rewriting := fun task submission =>
  some (task, submission ++ js "  \n")

/-- Source: `submission-leading-whitespace` -/
def submissionLeadingWhitespace : Rewriting := fun task submission =>
  some (task, js " \n" ++ submission)

/-- Source: `answer-case-fold` -/
def answerCaseFold (toUpperCase : JsString → JsString) : Rewriting := fun task submission =>
  let upper := toUpperCase submission
  if upper = submission then none else some (task, upper)

/-- Source: `numeric-reformat` -/
def numericReformat : Rewriting := fun task submission =>
  (asNumber submission).bind fun n =>
    let rewritten := if n.isInteger then n.toString ++ js ".0" else n.toString ++ js "0"
    if rewritten = trim submission then none else some (task, rewritten)

/-- `JSON.stringify` does not throw, and returns a text, on what `JSON.parse` returns.
Source: `json-key-reorder` -/
def jsonKeyReorder : Rewriting := fun task submission =>
  (asJsonObject submission).bind fun obj =>
    if obj.length < 2 then none
    else
      let reversed := obj.reverse.foldl assign []
      (jsonStringify (.obj (ownOrder reversed))).toOption.join.map fun text => (task, text)

/-- Source: `prompt-neutral-prefix` -/
def promptNeutralPrefix : Rewriting := fun task submission =>
  some ({ task with prompt := js "Task: " ++ task.prompt }, submission)

/-- Source: `prompt-whitespace-normalise` -/
def promptWhitespaceNormalise : Rewriting := fun task submission =>
  let normalised := trim ((Pattern.set isWhiteSpace).plus.replaceAll (fun _ => [32]) task.prompt)
  if normalised = task.prompt then none else some ({ task with prompt := normalised }, submission)

/-- `[A-Za-z_]` -/
def isFirstUnit (u : UInt16) : Bool := isWordUnit u && !isDigit u

/-- What `\b[A-Za-z_][A-Za-z0-9_]{3,}\b` matches in a text, each once, in the order in which they
come. -/
def ids (text : JsString) : List JsString :=
  (((Pattern.identifier isWordUnit isFirstUnit 3).matchAll (withPrevious none text)).map
    (List.map Prod.snd)).eraseDups

/-- The longest identifier that two texts share, the first in the first text of several. -/
def sharedTarget (prompt submission : JsString) : Option JsString :=
  let shared := (ids prompt).filter fun id => id ∈ ids submission
  (shared.insertionSort fun a b => b.length ≤ a.length).head?

/-- `text.replace(new RegExp('\\b' + target + '\\b', 'g'), renamed)` -/
def swap (target renamed text : JsString) : JsString :=
  (Pattern.wholeWord isWordUnit target).replaceWords (fun _ => renamed) text

/-- Source: `identifier-alpha-rename` -/
def identifierAlphaRename : Rewriting := fun task submission =>
  (sharedTarget task.prompt submission).map fun target =>
    let renamed := target ++ js "_r"
    ({ task with prompt := swap target renamed task.prompt }, swap target renamed submission)

/-- Source: `comment-insertion` -/
def commentInsertion : Rewriting := fun task submission =>
  if trim submission = [] then none else some (task, submission ++ js "\n# no behavioural change")

/-- The rewritings with their names.
Source: `STANDARD_PERTURBATIONS` -/
def standardPerturbations (toUpperCase : JsString → JsString) : List (JsString × Rewriting) :=
  [(js "task-id-rename", taskIdRename),
    (js "submission-trailing-whitespace", submissionTrailingWhitespace),
    (js "submission-leading-whitespace", submissionLeadingWhitespace),
    (js "answer-case-fold", answerCaseFold toUpperCase),
    (js "numeric-reformat", numericReformat),
    (js "json-key-reorder", jsonKeyReorder),
    (js "prompt-neutral-prefix", promptNeutralPrefix),
    (js "prompt-whitespace-normalise", promptWhitespaceNormalise),
    (js "identifier-alpha-rename", identifierAlphaRename),
    (js "comment-insertion", commentInsertion)]

/-- Source: `inapplicablePerturbations` -/
def inapplicablePerturbations (task : TextTask) (submission : JsString)
    (perturbations : List (JsString × Rewriting)) : List JsString :=
  (perturbations.filter fun p => (p.2 task submission).isNone).map Prod.fst

end AgentEval.Robustness
