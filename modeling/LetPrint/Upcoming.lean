/-! Lists that are gone through in order, from a place on.

A place counts the items that are passed. A negative place counts from the end of
the list: the items from there come first, and then the list begins again. -/
namespace LetPrint

/-- The items of a list that come from a place on. None do from a place before the
first item or after the last. -/
def upcoming {α : Type} (items : List α) : Int → List α
  | .ofNat passed => items.drop passed
  | .negSucc n => if n < items.length then items.drop (items.length - (n + 1)) ++ items else []

theorem upcoming_natCast {α : Type} (items : List α) (passed : Nat) :
    upcoming items passed = items.drop passed :=
  rfl

theorem upcoming_map {α β : Type} (f : α → β) (items : List α) (place : Int) :
    upcoming (items.map f) place = (upcoming items place).map f := by
  cases place with
  | ofNat passed => simp only [upcoming, List.map_drop]
  | negSucc n =>
    simp only [upcoming, List.length_map]
    split
    · rw [List.map_append, List.map_drop]
    · rfl

end LetPrint
