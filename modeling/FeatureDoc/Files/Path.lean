/-!
# Paths

A path is a text with slashes between its components. Repeated slashes and dots that stand for the
same directory are no components, except for a dot at the very start.

* `Path.le` compares two paths component by component.
* `Path.hasExtension` looks at what follows the last dot of the last component.
* `Path.join` puts a relative path below a directory.
-/

namespace FeatureDoc.Path

/-- A component of a path. -/
inductive Component where
  /-- The start of an absolute path. -/
  | root
  /-- A dot at the start of a relative path. -/
  | current
  /-- Two dots. -/
  | parent
  /-- A name. -/
  | name (text : String)
  deriving DecidableEq, Repr

namespace Component

/-- Names come after all other components. -/
def rank : Component → Nat
  | .root => 0
  | .current => 1
  | .parent => 2
  | .name _ => 3

/-- The text of a name. -/
def text : Component → String
  | .name text => text
  | _ => ""

/-- The order of components; names are ordered by their characters. -/
def lt (a b : Component) : Bool :=
  a.rank < b.rank || (a.rank == b.rank && decide (a.text < b.text))

end Component

/-- The texts between the slashes. -/
def pieces (path : String) : List String := (path.toList.splitOn '/').map String.ofList

/-- The component that a piece stands for, if it is one. -/
def component? (piece : String) : Option Component :=
  if piece = "" ∨ piece = "." then none
  else if piece = ".." then some .parent
  else some (.name piece)

/-- The components of a path. -/
def components (path : String) : List Component :=
  let rest := (pieces path).filterMap component?
  match pieces path with
  | "" :: _ :: _ => .root :: rest
  | "." :: _ => .current :: rest
  | _ => rest

/-- Whether one list of components does not come after another. -/
def componentsLe : List Component → List Component → Bool
  | [], _ => true
  | _ :: _, [] => false
  | a :: as, b :: bs => a.lt b || (!b.lt a && componentsLe as bs)

/-- Whether one path does not come after another. -/
def le (p q : String) : Bool := componentsLe (components p) (components q)

/-- The part of a file name after its last dot. A dot at the start of the name starts no
extension. -/
def extension? (name : String) : Option String :=
  let reversed := name.toList.reverse
  let stem := (reversed.dropWhile (· != '.')).tail
  if stem.isEmpty then none else some (String.ofList (reversed.takeWhile (· != '.')).reverse)

/-- Whether the last component of a path is a name with an extension, in capital or small
letters. -/
def hasExtension (extension path : String) : Bool :=
  match (components path).getLast? with
  | some (.name name) =>
    (extension? name).any fun e => e.toList.map Char.toLower == extension.toList
  | _ => false

/-- A path below a directory. -/
def join (base relative : String) : String :=
  if base.toList.getLast? = some '/' then base ++ relative else base ++ "/" ++ relative

end FeatureDoc.Path
