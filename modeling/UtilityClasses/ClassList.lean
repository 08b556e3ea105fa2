import UtilityClasses.Text.Blank
import UtilityClasses.Token.Affix
import UtilityClasses.Token.Utility

/-!
# Class lists

A class list is a text of tokens with blanks between them.  In the affixed list the tokens that
are utilities carry the affix, the others are kept, and a single space stands between one token
and the next.
-/

namespace UtilityClasses.ClassList

/-- A token with the affix if the classifier calls it a utility. -/
def affixedToken (affix : String) (classify : Classifier) (token : List Char) :
    Option (List Char) :=
  (classify (String.ofList token)).map fun isUtility =>
    if isUtility then Token.affixChars affix.toList token else token

/-- A class list with the affix on its utilities.  The empty affix leaves the text as it is,
blanks included. -/
def affixed (affix : String) (classify : Classifier) (classes : String) : Option String :=
  if affix.isEmpty then some classes
  else do
    let tokens ← (Text.words classes.toList).mapM (affixedToken affix classify)
    some (String.ofList ([' '].intercalate tokens))

end UtilityClasses.ClassList
