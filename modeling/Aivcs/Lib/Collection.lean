import Mathlib.Data.List.Basic

/-!
# Collection — an append-only collection of documents

Documents are only ever added, the newest in front; under an idempotency key a document is added once.
A query answers with the documents that have a value in a field, newest first, up to a limit.

* `newest`, `query_one` — a query for one document finds the newest with the value;
* `newest_create`, `newest_createIdempotent` — what that is after a document is added.
-/

namespace Aivcs
namespace Lib

/-- The documents, newest first, and the idempotency keys that have been used. -/
structure Collection (D : Type) where
  docs : List D
  keys : List String

namespace Collection

variable {D : Type}

def empty : Collection D :=
  ⟨[], []⟩

def create (c : Collection D) (doc : D) : Collection D :=
  { c with docs := doc :: c.docs }

/-- Under a key that has been used nothing is added. -/
def createIdempotent (c : Collection D) (key : String) (doc : D) : Collection D :=
  if key ∈ c.keys then c else { docs := doc :: c.docs, keys := key :: c.keys }

/-- The newest `limit` documents with the value in the field. -/
def query (c : Collection D) (field : D → String) (value : String) (limit : Nat) : List D :=
  (c.docs.filter fun doc => field doc = value).take limit

/-- The newest document with the value in the field. -/
def newest (c : Collection D) (field : D → String) (value : String) : Option D :=
  c.docs.find? fun doc => field doc = value

section Newest

variable {c : Collection D} {field : D → String} {value : String}

theorem query_one : c.query field value 1 = (c.newest field value).toList := by
  rw [query, newest, ← List.head?_filter, List.take_one]

theorem newest_create (doc : D) : (c.create doc).newest field value =
    if field doc = value then some doc else c.newest field value := by
  rw [newest, create, List.find?_cons]
  by_cases h : field doc = value
  · rw [if_pos h, decide_eq_true h]
  · rw [if_neg h, decide_eq_false h]
    rfl

theorem newest_createIdempotent (key : String) (doc : D) :
    (c.createIdempotent key doc).newest field value =
      if field doc = value ∧ key ∉ c.keys then some doc else c.newest field value := by
  by_cases hkey : key ∈ c.keys
  · rw [createIdempotent, if_pos hkey, if_neg fun h => h.2 hkey]
  · have hcreate : (c.createIdempotent key doc).newest field value = (c.create doc).newest field value := by
      rw [createIdempotent, if_neg hkey]
      rfl
    rw [hcreate, newest_create]
    simp only [hkey, not_false_eq_true, and_true]

theorem newest_eq_none (h : ∀ doc ∈ c.docs, field doc ≠ value) : c.newest field value = none :=
  List.find?_eq_none.2 fun doc hdoc => by simpa using h doc hdoc

end Newest

end Collection
end Lib
end Aivcs
