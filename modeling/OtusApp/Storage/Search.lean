import OtusApp.Lib.Like
import OtusApp.Storage.Tables

/-!
# The search in the table

`Postgres.Search`. `ILIKE` is `LIKE` of both texts in lower case, and the case of a text is changed
character by character.
-/

namespace OtusApp.Storage

open Messaging

/-- The marks of `LIKE`. -/
def likeMarks : Like.Marks Char := ⟨'%', '_', '\\', by decide, by decide, by decide⟩

/-- A text in lower case. -/
def lowered (fold : Char → Char) (text : String) : String := String.ofList (text.toList.map fold)

/-- The rows whose text the pattern finds, `ORDER BY id DESC LIMIT limit`. -/
def newest (found : MessageRow → Bool) (limit : Nat) (messages : List MessageRow) : List Message :=
  (((messages.filter found).insertionSort fun a b => b.id ≤ a.id).take limit).map fun r =>
    r.message (r.textHash = checksum r.text)

/-- `Postgres.Search`. The database takes no text with a NUL, no negative limit, and no pattern that
ends with the escape. -/
def search (fold : Char → Char) (query : String) (limit : Int) (messages : List MessageRow) :
    Option (List Message) :=
  if '\x00' ∈ query.toList ∨ limit < 0 then none
  else
    (Like.tokens likeMarks (lowered fold ("%" ++ query ++ "%")).toList).map fun pattern =>
      newest (fun r => Like.Token.matches_ pattern (lowered fold r.text).toList)
        limit.toNat messages

end OtusApp.Storage
