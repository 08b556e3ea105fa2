import UtilityClasses.ClassList
import UtilityClasses.Text.Quoted

/-!
# Settings

Which prefix to add, and where.
-/

namespace UtilityClasses

/-- The attributes that hold class lists unless others are named. -/
def defaultAttributes : List String := ["class", "className", "tw"]

/-- The functions whose arguments are class lists. -/
def helperNames : List String :=
  ["clsx", "classnames", "classNames", "cn", "cx", "twMerge", "twJoin"]

/-- The prefix to add, the attributes to look into, and the rule that tells utilities from
other tokens. -/
structure Settings where
  affix : String
  attributes : List String := defaultAttributes
  classify : Classifier := Classifier.lexical

namespace Settings

/-- Whether no source can change under the settings. -/
def isNoop (settings : Settings) : Bool :=
  settings.affix.isEmpty || settings.attributes.isEmpty

/-- Whether the attribute of this name holds class lists. -/
def isTarget (settings : Settings) (name : String) : Bool :=
  settings.attributes.contains name

/-- The names of the attributes to look into, in order and without repetition. -/
def attributeNames (settings : Settings) : List String :=
  (settings.attributes.mergeSort (fun a b => a ≤ b)).eraseDups

/-- A class list with the prefix on its utilities. -/
def affixed (settings : Settings) (classes : String) : Option String :=
  ClassList.affixed settings.affix settings.classify classes

/-- The new text of a class list, or nothing if the text stays the same. -/
def revised (settings : Settings) (classes : String) : Option (Option String) :=
  (settings.affixed classes).map fun text => if text = classes then none else some text

/-- The settings in words; the rule for utilities is not shown. -/
def describe (settings : Settings) : String :=
  "TransformConfig \x7b prefix: " ++ Text.quoted settings.affix ++ ", attributes: [" ++
    ", ".intercalate (settings.attributeNames.map Text.quoted) ++ "], .. \x7d"

end Settings

end UtilityClasses
