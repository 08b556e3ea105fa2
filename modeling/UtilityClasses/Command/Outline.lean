import UtilityClasses.Command.Files

/-!
# Outlines

The command `parse` shows the elements of a file, their attributes and expressions, and what
would be replaced.
-/

namespace UtilityClasses.Command

/-- A line of an outline. -/
def indented (depth : Nat) (text : String) : String :=
  String.ofList (List.replicate (2 * depth) ' ') ++ text

/-- What an outline says of an expression besides its shape. -/
def exprDetail : ExprShape → String
  | .str _ value => " " ++ Text.quoted value
  | .template texts holes =>
    match (ExprShape.template texts holes).staticText? with
    | some text => " " ++ Text.quoted text
    | none => " (" ++ toString holes.length ++ " holes)"
  | .ident name => " " ++ name
  | .member _ property => " ." ++ property
  | .logical op _ _ => " " ++ op.render
  | _ => ""

/-- The line for an expression. -/
def exprLine (depth : Nat) (expr : Expr) : String :=
  indented depth (expr.shape.label ++ exprDetail expr.shape ++ " " ++ expr.span.render)

/-- The lines for an attribute.  A star marks those that hold class lists by default. -/
def attributeLines (arena : Arena) (attr : Attribute) : Option (List String) := do
  let mark := if defaultAttributes.contains attr.name then "*" else " "
  let line := fun value => indented 1 (mark ++ attr.name ++ value)
  match attr.value with
  | none => some [line ""]
  | some (.literal text) => some [line (" = " ++ Text.quoted text.value ++ " " ++ text.span.render)]
  | some (.container span id) =>
    let nodes ← arena.tree id
    some (line (" = \x7b...\x7d " ++ span.render) ::
      nodes.map fun (depth, expr) => exprLine (depth + 2) expr)

/-- The lines for an element. -/
def elementLines (arena : Arena) (element : Element) : Option (List String) := do
  let name := if element.name.isEmpty then "<>" else element.name
  let attributes ← element.attributes.mapM (attributeLines arena)
  some (("element " ++ name ++ " " ++ element.span.render) :: attributes.flatten)

/-- The line for a literal that would be replaced. -/
def replacementLine (replacement : Replacement) : String :=
  "  " ++ replacement.target.name ++ " " ++ replacement.span.render ++ " -> " ++ replacement.text

/-- The outline of a source.  The prefix `tw-` stands for the one to be chosen. -/
def outline (path : String) (dialect : Dialect) (markup : Markup) : Option String := do
  let elements ← markup.elements.mapM (elementLines markup.arena)
  let replacements ← Selection.ofMarkup { affix := "tw-" } markup
  let eligible :=
    if replacements.isEmpty then []
    else "" :: "eligible nodes (prefix tw-):" :: replacements.map replacementLine
  some (unlines ((path ++ " (" ++ dialect.name ++ ")") :: elements.flatten ++ eligible))

/-- Runs the command on the file at a path. -/
def runOutline (host : Host) (tree : FileTree) (path : String) : Report :=
  match Dialect.ofPath? path with
  | none => { errors := "unsupported file type: '" ++ path ++ "'\n", exit := 1 }
  | some dialect =>
    match readFile host tree path with
    | .error message => { errors := message ++ "\n", exit := 1 }
    | .ok source =>
      match Markup.parse dialect source with
      | .error (.error error) => { errors := host.renderError path source error, exit := 1 }
      | .error .exhausted => { exit := 1 }
      | .ok markup =>
        match outline path dialect markup with
        | some text => { output := text }
        | none => { exit := 1 }

end UtilityClasses.Command
