import Migration.Catalog
import Migration.Naming.Canonical

/-
  Index names of one schema.

  The source keeps index names apart by table, the target by schema. Where a name
  occurs more than once in a batch, its members are numbered from one in order.
  The name is cut so that the number still fits. A numbered name may meet another
  name of the batch; that is left as it is.
-/

namespace Migration.Naming

/-- The name with a number after it, cut to the length that the target admits. -/
def numbered (name : String) (ordinal : Nat) : String :=
  let digits := toString ordinal
  String.ofList (name.toList.take (maxNameLength - digits.length)) ++ digits

/-- Numbers the indexes whose name occurs more than once among `names`, the names of the indexes
before them being given. -/
def numberFrom (names before : List String) : List Index → List Index
  | [] => []
  | i :: rest =>
    let name :=
      if 1 < names.count i.name then numbered i.name (before.count i.name + 1) else i.name
    { i with name } :: numberFrom names (i.name :: before) rest

/-- The batch with every name that occurs more than once numbered. -/
def resolveIndexCollisions (indexes : List Index) : List Index :=
  numberFrom (indexes.map Index.name) [] indexes

end Migration.Naming
