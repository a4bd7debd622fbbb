import PklSyntax.Toml.Value

/-!
# Building tables

The statements of a document fill its table one after another. Each names a table by a path of
names, along which the tables that do not exist yet are made. Nothing that is given once is ever
replaced, so each step fails when it would have to.

## Main definitions

* `Toml.alter`: a table with the value of one name changed.
* `Toml.inside`: a table with another one changed, which is reached by a path.
* `Toml.openTable`, `Toml.addTable`, `Toml.assign`: what the three kinds of statement do.

## Main statements

* `Toml.find?_alter`: only the one name changes.
-/

namespace PklSyntax.Toml

/-- The table with the value of `name` changed by `f`; a name that is new comes last. -/
def alter (name : String) (f : Option Value → Option Value) : Table → Option Table
  | [] => (f none).map fun value => [(name, value)]
  | (other, value) :: rest =>
    if other == name then (f (some value)).map fun value => (other, value) :: rest
    else (alter name f rest).map ((other, value) :: ·)

theorem find?_alter {name : String} {f : Option Value → Option Value} {table table' : Table}
    (h : alter name f table = some table') (other : String) :
    find? other table' = if other = name then f (find? name table) else find? other table := by
  induction table generalizing table' with
  | nil =>
    obtain ⟨value, hf, rfl⟩ := Option.map_eq_some_iff.1 h
    rw [find?, List.lookup_cons, List.lookup_nil]
    by_cases ho : other = name
    · rw [if_pos ho, beq_iff_eq.2 ho, find?, List.lookup_nil, hf]
    · rw [if_neg ho, beq_false_of_ne ho, find?, List.lookup_nil]
  | cons entry rest ih =>
    obtain ⟨key, value⟩ := entry
    simp only [find?] at ih ⊢
    rw [alter] at h
    split at h
    next hk =>
      obtain ⟨value', hf, rfl⟩ := Option.map_eq_some_iff.1 h
      have hk : key = name := beq_iff_eq.1 hk
      by_cases ho : other = name
      · rw [if_pos ho, List.lookup_cons, beq_iff_eq.2 (ho.trans hk.symm), List.lookup_cons,
          beq_iff_eq.2 hk.symm, hf]
      · have hne : (other == key) = false := beq_false_of_ne fun e => ho (e.trans hk)
        rw [if_neg ho, List.lookup_cons, List.lookup_cons, hne]
    next hk =>
      obtain ⟨rest', hr, rfl⟩ := Option.map_eq_some_iff.1 h
      have hne : (name == key) = false :=
        beq_false_of_ne fun e => hk (beq_iff_eq.2 e.symm)
      rw [List.lookup_cons, ih hr, List.lookup_cons, List.lookup_cons, hne]
      by_cases ho : other = key
      · have : other ≠ name := fun e => hk (beq_iff_eq.2 (ho.symm.trans e))
        rw [if_neg this, if_neg this, beq_iff_eq.2 ho]
      · rw [beq_false_of_ne ho]

/-- How a table may be passed on the way to another one: its origin afterwards, if it may. A table
that does not exist yet has no origin before. -/
abbrev Passing := Option Origin → Option Origin

/-- The headers lead through all tables but complete ones. -/
def Passing.byHeader : Passing
  | none => some .passage
  | some .inline => none
  | some origin => some origin

/-- Keys of the block with the number `block` lead through new tables, through those that were
made by keys of the same block, and through those that have no header yet. -/
def Passing.byKeys (block : Nat) : Passing
  | none | some .passage => some (.keys block)
  | some (.keys other) => if other = block then some (.keys block) else none
  | some .header | some .inline => none

/-- The table with the one that is reached by the path changed by `f`. An array of tables is
passed by its latest element, if `throughArrays` says so. -/
def inside (passing : Passing) (throughArrays : Bool) (f : Table → Option Table) :
    List String → Table → Option Table
  | [], table => f table
  | name :: path, table =>
    table |> alter name fun
      | none => do
        let origin ← passing none
        return .table origin (← inside passing throughArrays f path [])
      | some (.table origin entries) => do
        let origin ← passing (some origin)
        return .table origin (← inside passing throughArrays f path entries)
      | some (.tables earlier latest) =>
        if throughArrays then .tables earlier <$> inside passing throughArrays f path latest
        else none
      | some _ => none

/-- The names by which a value is reached. -/
structure Key where
  path : List String
  name : String
  deriving Repr, DecidableEq, Inhabited

namespace Key

/-- All names of the key. -/
def names (key : Key) : List String := key.path ++ [key.name]

end Key

/-- The document with the table that a header names, which must not have a header yet. -/
def openTable (key : Key) : Table → Option Table :=
  inside .byHeader true (alter key.name fun
    | none => some (.table .header [])
    | some (.table .passage entries) => some (.table .header entries)
    | some _ => none) key.path

/-- The document with one more table in the array that a header names. -/
def addTable (key : Key) : Table → Option Table :=
  inside .byHeader true (alter key.name fun
    | none => some (.tables [] [])
    | some (.tables earlier latest) => some (.tables (earlier ++ [latest]) [])
    | some _ => none) key.path

/-- The table with a value for a key of the block with the number `block`. -/
def assign (block : Nat) (key : Key) (value : Value) : Table → Option Table :=
  inside (.byKeys block) false (alter key.name fun
    | none => some value
    | some _ => none) key.path

end PklSyntax.Toml
