import Directional.DomainError
import Directional.Decimal.Positional

namespace Directional.DomainError

/-- The sentence that reports the rejection of a double. -/
def message : DomainError Float → String
  | .outOfDomain function domain value =>
    function ++ ": " ++ (Decimal.Binary.ofFloat value).text ++ " is outside of the domain " ++ domain
  | .nonFinite function value =>
    function ++ ": non-finite argument " ++ (Decimal.Binary.ofFloat value).text

end Directional.DomainError
