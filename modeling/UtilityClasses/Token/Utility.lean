import UtilityClasses.Text.Uppercase
import UtilityClasses.Token.Segments
import UtilityClasses.Token.Vocabulary

/-!
# Which tokens are utilities

A classifier answers whether a token is a utility class.  `isUtility` is the lexical rule
used when nothing else is asked for: no capital letter anywhere, and a root from the
vocabulary.
-/

namespace UtilityClasses

/-- Whether a token looks like a utility class. -/
def Token.isUtility (token : String) : Bool :=
  !token.toList.any Text.isUppercase &&
    match (Token.cut (Token.body token.toList)).getLast? with
    | some root => Token.Vocabulary.holds root
    | none => false

/-- Decides which tokens are utilities.  A classifier may give up on a token, and then every
computation that asked for the answer has none. -/
abbrev Classifier := String → Option Bool

/-- The classifier that follows a predicate and never gives up. -/
def Classifier.ofPredicate (isUtility : String → Bool) : Classifier :=
  fun token => some (isUtility token)

/-- The lexical rule as a classifier. -/
def Classifier.lexical : Classifier :=
  Classifier.ofPredicate Token.isUtility

end UtilityClasses
