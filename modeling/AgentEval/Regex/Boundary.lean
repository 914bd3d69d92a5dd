import AgentEval.Regex.Pattern

/-!
# Word boundaries

A pattern looks at the text from a place on. For `\b` in front of a word it has to know the symbol
before, so the text is written with each symbol's predecessor; after a word, what follows decides.
-/

namespace Regex

variable {α : Type}

/-- Every symbol with the one before it. -/
def withPrevious : Option α → List α → List (Option α × α)
  | _, [] => []
  | p, x :: s => (p, x) :: withPrevious (some x) s

/-- A number of times, and then as often as possible. -/
def Pattern.atLeast (a : Pattern α) : ℕ → Pattern α
  | 0 => .star a
  | n + 1 => .seq a (a.atLeast n)

/-- One symbol of a set, whatever is before it. -/
def Pattern.symbol (p : α → Bool) : Pattern (Option α × α) := .set fun x => p x.2

/-- `\b` in front of a word. -/
def Pattern.opening (word : α → Bool) : Pattern (Option α × α) :=
  .ahead (.set fun x => word x.2 && !x.1.elim false word)

/-- `\b` after a word. -/
def Pattern.closing (word : α → Bool) : Pattern (Option α × α) := .notAhead (.symbol word)

/-- The symbols of a word, whatever is before it. -/
def Pattern.text (same : α → α → Bool) (w : List α) : Pattern (Option α × α) :=
  w.foldr (fun x r => .seq (.symbol (same x)) r) .empty

/-- The matches replaced in a text that is read with predecessors. -/
def Pattern.replaceWords (r : Pattern (Option α × α)) (f : List α → List α) (s : List α) : List α :=
  (r.replaceAll (fun o => (f (o.taken.map Prod.snd)).map fun x => (none, x))
    (withPrevious none s)).map Prod.snd

end Regex
