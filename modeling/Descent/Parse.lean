import Descent.Engine
import Descent.Text.Wording

/-! # Parsing a source

* **`Engine.parse`** — run a parser from the start of a source. What happened is logged.
* **`Engine.tryParse`** — the value of a parser that has to match all of a source; anything else is
  an error that reports where it got stuck. -/

namespace Descent

/-- The entry of the log for what became of a source. A failure has to be put into words. -/
def Record.ofResult (source : Source) : Result → Except Raised Record
  | .matched stop _ => .ok (.matched stop source.length)
  | .failed failure => (Text.Wording.expected failure.expected).map (.failed failure.place ·)

/-- The store with an entry for what became of a source, if a log is kept. -/
def Store.logResult (store : Store) (source : Source) (result : Result) :
    Except Raised (Unit × Store) :=
  if store.logging then (Record.ofResult source result).map fun record => ((), store.log record)
  else .ok ((), store)

namespace Engine

variable {m : Type → Type} [Monad m] [MonadLiftT Eval m]

/-- Run a parser from the start of a source and log what happened. The parser does not have to reach
the end. -/
def parse (engine : Engine m) (root : Parser) (source : Source) : m Result := do
  let result ← engine.run root source .start
  Eval.attempt (·.logResult source result)
  return result

/-- The value of a parser that matches all of a source. -/
def tryParse (engine : Engine m) (root : Parser) (source : Source) : m Value := do
  match (← engine.parse (root.skip .eof) source) with
  | .matched _ value => return value
  | .failed failure => liftM (Eval.raise (.unparsed source failure) : Eval Value)

end Engine

end Descent
