import PklSyntax.Editor.Document

/-!
# Editing sessions

A session is the set of open documents, each under an identifier that the editor has chosen. A
document that changes is given anew with all of its text.

## Main definitions

* `Session`, `Session.find?`, `Session.put`, `Session.close`.
* `Session.identifiers`: the open documents, in the order of their identifiers.

## Main statements

* `Session.find?_put`, `Session.find?_close`: only the one document changes.
-/

namespace PklSyntax

/-- The open documents by their identifiers. -/
structure Session where
  documents : List (String × Document) := []

namespace Session

/-- The document with an identifier, if it is open. -/
def find? (session : Session) (id : String) : Option Document := session.documents.lookup id

/-- The session without a document. -/
def close (session : Session) (id : String) : Session :=
  ⟨session.documents.filter fun entry => entry.1 != id⟩

/-- The session with a document opened or given anew. -/
def put (session : Session) (id : String) (doc : Document) : Session :=
  ⟨(id, doc) :: (session.close id).documents⟩

/-- The identifiers of the open documents, in their order. -/
def identifiers (session : Session) : List String :=
  (session.documents.map Prod.fst).mergeSort fun a b => decide (a ≤ b)

private theorem lookup_filter_ne (documents : List (String × Document)) (id other : String) :
    (documents.filter fun entry => entry.1 != id).lookup other =
      if other = id then none else documents.lookup other := by
  induction documents with
  | nil => simp
  | cons entry rest ih =>
    obtain ⟨key, doc⟩ := entry
    by_cases hkey : key = id
    · rw [List.filter_cons_of_neg (by simp [hkey]), ih]
      by_cases ho : other = id
      · rw [if_pos ho, if_pos ho]
      · have hne : (other == key) = false := beq_false_of_ne fun h => ho (h.trans hkey)
        rw [if_neg ho, if_neg ho, List.lookup_cons, hne]
    · rw [List.filter_cons_of_pos (by simp [hkey]), List.lookup_cons, List.lookup_cons, ih]
      by_cases ho : other = key
      · have hid : other ≠ id := fun h => hkey (ho.symm.trans h)
        rw [if_neg hid, if_neg hid]
      · rw [beq_false_of_ne ho]

theorem find?_close (session : Session) (id other : String) :
    (session.close id).find? other = if other = id then none else session.find? other :=
  lookup_filter_ne session.documents id other

theorem find?_put (session : Session) (id other : String) (doc : Document) :
    (session.put id doc).find? other = if other = id then some doc else session.find? other := by
  have hclose := session.find?_close id other
  by_cases ho : other = id
  · rw [if_pos ho, find?, put, ho, List.lookup_cons, beq_self_eq_true]
  · rw [if_neg ho, find?, put, List.lookup_cons, beq_false_of_ne ho]
    rw [if_neg ho] at hclose
    exact hclose
end Session

end PklSyntax
