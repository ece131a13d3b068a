/-!
Log lines as data. An operation that reports its progress has beside it a function that gives the
lines; whoever runs it chooses the level from which they are kept.
-/

set_option autoImplicit false
set_option relaxedAutoImplicit false

namespace ResourceLang.Log

inductive Level
  | error
  | warn
  | info
  | debug
  | trace
  deriving DecidableEq, Repr

structure Entry where
  level : Level
  text : String
  deriving DecidableEq, Repr

namespace Level

def name : Level → String
  | error => "ERROR"
  | warn => "WARN"
  | info => "INFO"
  | debug => "DEBUG"
  | trace => "TRACE"

/-- The gravest level has the smallest rank. -/
def rank : Level → Nat
  | error => 0
  | warn => 1
  | info => 2
  | debug => 3
  | trace => 4

end Level

def warning (text : String) : Entry := ⟨.warn, text⟩

def detail (text : String) : Entry := ⟨.debug, text⟩

/-- The entries at least as grave as `threshold`, in order. -/
def kept (threshold : Level) (entries : List Entry) : List Entry :=
  entries.filter fun entry ↦ entry.level.rank ≤ threshold.rank

end ResourceLang.Log
