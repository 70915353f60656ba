/-!
# Log records

What the library has to say about its work is returned as data.
-/

namespace SqlReader

inductive Level
  | trace | debug | info
  deriving DecidableEq

def Level.name : Level → String
  | trace => "TRACE"
  | debug => "DEBUG"
  | info => "INFO"

structure Record where
  level : Level
  text : String
  deriving DecidableEq

end SqlReader
