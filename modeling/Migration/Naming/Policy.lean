import Migration.Naming.Canonical

/-
  Naming policies: how a source name becomes a target name.

  Under both policies the default schema of the source takes the name of the
  default schema of the target.
-/

namespace Migration.Naming

inductive NamingPolicy where
  /-- Names stay as they are. -/
  | identity
  /-- Names become canonical. -/
  | canonicalizing
  deriving DecidableEq, Repr

namespace NamingPolicy

def name : NamingPolicy → String
  | .identity => "identity"
  | .canonicalizing => "canonicalizing"

def ofName? : String → Option NamingPolicy
  | "identity" => some .identity
  | "canonicalizing" => some .canonicalizing
  | _ => none

end NamingPolicy

/-- The default schema of the source, in any mix of ASCII cases, becomes that of the target. -/
def aliasSchema (raw : String) : String :=
  if Text.sameIgnoringAsciiCase raw "dbo" then "public" else raw

/-- The target name of a source name of some kind. -/
def NamingPolicy.apply (policy : NamingPolicy) (kind : ObjectKind) (raw : String) :
    Outcome TargetName :=
  let aliased := if kind = .schema then aliasSchema raw else raw
  match policy with
  | .identity => .ok ⟨aliased, false⟩
  | .canonicalizing => canonicalize aliased

end Migration.Naming
