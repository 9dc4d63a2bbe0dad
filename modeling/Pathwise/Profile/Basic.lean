import Pathwise.Digest.Keccak
import Pathwise.Domain.Bounds
import Pathwise.Profile.Access
import Pathwise.Profile.Transformation

/-!
# Profiles

A profile is a path together with what comparisons ask of it, computed once: its constraints by
layer, the domains of its inputs, its memory accesses and transformations, and a fingerprint.

The fingerprint is the digest of a text that lists variables, domains, accesses, transformations,
constraints and output, one a line.
-/

namespace Pathwise

/-- A path with what comparisons ask of it. -/
structure Profile where
  path : Path
  buckets : Layered (List Constraint)
  unclassified : List Nat
  domains : List Domain
  accesses : List Access
  transformations : List Transformation
  fingerprint : Keccak.Digest
  deriving Repr, Inhabited

namespace Path

/-- The domains that the control flow leaves to the inputs. -/
def domains (p : Path) : List Domain :=
  Domain.infer p.inputs ((p.bucket .controlFlow).map (·.term))

/-- The memory accesses of a path. -/
def accesses (p : Path) : List Access :=
  Access.ofConstraints (p.bucket .memory)

/-- The transformations of a path, sorted. -/
def transformations (p : Path) : List Transformation :=
  Transformation.ofConstraints (p.bucket .transform)

end Path

namespace Profile

/-- The line for a variable. -/
def variableLine (v : Variable) : String :=
  "var " ++ v.name ++ " " ++ toString v.width ++ " " ++ toString v.role.number ++ " " ++
    toString v.role.indexWidth

/-- The line for a domain. -/
def domainLine (d : Domain) : String :=
  "dom " ++ toString d.width ++ " " ++ d.text

/-- The line for an access. -/
def accessLine (a : Access) : String :=
  "mem " ++ a.text ++ " abs=" ++ toString a.address

/-- The line for an output. -/
def outputLine (o : Observed) : String :=
  "output " ++ o.kind ++ " " ++ o.shown

/-- The lines whose digest identifies a path. -/
def contentLines (p : Path) (domains : List Domain) (accesses : List Access)
    (transformations : List Transformation) : List String :=
  p.declared.map variableLine ++ domains.map domainLine ++ accesses.map accessLine ++
    transformations.map (fun t => "op " ++ t.text) ++
    p.constraints.map (fun c => "assert " ++ c.text) ++ [outputLine p.output]

/-- The text whose digest identifies a path; each line is ended. -/
def contentText (p : Path) (domains : List Domain) (accesses : List Access)
    (transformations : List Transformation) : String :=
  String.join ((contentLines p domains accesses transformations).map (· ++ "\n"))

/-- The profile of a path. -/
def ofPath (p : Path) : Profile :=
  let domains := p.domains
  let accesses := p.accesses
  let transformations := p.transformations
  { path := p
    buckets := .ofFn p.bucket
    unclassified := p.unclassified
    domains
    accesses
    transformations
    fingerprint := Keccak.digest (contentText p domains accesses transformations).toUTF8.toList }

/-- The fingerprint for reports. -/
def fingerprintText (p : Profile) : String :=
  Keccak.text p.fingerprint

/-- The number of constraints in each layer. -/
def counts (p : Profile) : Layered Nat :=
  p.buckets.map List.length

end Profile

end Pathwise
