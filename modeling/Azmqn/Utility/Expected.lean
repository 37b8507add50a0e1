import Azmqn.Utility.Outcome

/-!
# The contents of `expected<T, E>`

What a read or a write reports: a value or an error. This is the content only;
how the union that stores it is managed is not visible to the callers modelled
on top of it.
-/

namespace Azmqn

inductive Expected (T E : Type)
  | value (val : T)
  | error (err : E)
  deriving DecidableEq, Repr

end Azmqn
