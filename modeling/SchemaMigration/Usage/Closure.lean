import SchemaMigration.Path.Order

set_option autoImplicit false

namespace SchemaMigration

abbrev Dependencies := PathMap (List Path)

namespace Dependencies

def targets (deps : Dependencies) (p : Path) : List Path :=
  (PathMap.get? deps p).getD []

def additions (deps : Dependencies) (reached : List Path) : List Path :=
  (reached.flatMap deps.targets).filter fun p => !reached.contains p

def closeFrom (deps : Dependencies) : Nat → List Path → List Path
  | 0, reached => reached
  | fuel + 1, reached =>
    let added := deps.additions reached
    if added.isEmpty then reached
    else deps.closeFrom fuel (Path.sortedSet (reached ++ added))

def close (deps : Dependencies) (seed : List Path) : List Path :=
  -- Every round but the last adds a target, so there are no more rounds than targets and one.
  deps.closeFrom ((deps.flatMap Prod.snd).length + 1) (Path.sortedSet seed)

end Dependencies

end SchemaMigration
