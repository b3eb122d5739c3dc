import BlockMarkup.Position

/-!
# Checked list operations

Operations on lists whose steps may be refused. They take the elements in
order, so the fault of the first refused element is the one that counts.
-/

namespace BlockMarkup.Checked

/-- Keeps what the step finds for the elements of a list, in order. -/
def filterMap {α β : Type} (step : α → Checked (Option β)) : List α → Checked (List β)
  | [] => .ok []
  | a :: rest => do
    let found ← step a
    let more ← filterMap step rest
    return found.toList ++ more

end BlockMarkup.Checked
