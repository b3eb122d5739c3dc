/-!
# Partition points

Values for which a condition holds up to some place and fails from there on
have a partition point: the number of values for which it holds. `partitionPoint`
finds it by halving the interval that is still open. It reads one value per
round, so a budget of one round per value is always enough.
-/

namespace BlockMarkup

/-- Halves the interval from `low` to `high` until it is empty or the budget is
    used up. -/
def searchBetween (holds : Nat → Bool) (values : Array Nat) : Nat → Nat → Nat → Nat
  | 0, low, _ => low
  | budget + 1, low, high =>
    if low < high then
      let middle := low + (high - low) / 2
      if (values[middle]?.map holds).getD false then
        searchBetween holds values budget (middle + 1) high
      else
        searchBetween holds values budget low middle
    else
      low

/-- The number of values, counted from the front, for which the condition
    holds. -/
def partitionPoint (holds : Nat → Bool) (values : Array Nat) : Nat :=
  searchBetween holds values values.size 0 values.size

end BlockMarkup
