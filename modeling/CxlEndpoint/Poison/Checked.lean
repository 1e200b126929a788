import CxlEndpoint.Poison.Store

/-!
# Calls for one line, as far as they get

The end of a line is computed as a word, with no provision for the last line, whose end is no word.
A program that computes the end of that line stops.

* `Store.isPoisonedChecked`, `Store.injectChecked`, `Store.clearChecked`: `isPoisoned`, `inject?`
  and `clear`, where `none` says that the program stops.
-/

namespace CxlEndpoint.Poison.Store

/-- `isPoisoned`, which computes the end of the line for each record that it looks at. -/
def isPoisonedChecked (s : Store) (address : Nat) : Option Bool :=
  s.live.anyM fun r =>
    (Word.add? (lineStart address) lineBytes).map fun stop =>
      decide (r.Contains (lineStart address) stop)

/-- `inject?`, which looks at the list in any case. -/
def injectChecked (s : Store) (address : Nat) (frozen : Bool) : Option (Option Store) :=
  (s.isPoisonedChecked address).map fun poisoned =>
    if poisoned || frozen then some s
    else if listLimit ≤ s.live.length then none
    else some { s with live := insertSorted ⟨lineStart address, lineBytes, .injected⟩ s.live }

/-- `clear`, which computes the end of the line unless the list is `frozen`. -/
def clearChecked (s : Store) (address : Nat) (frozen : Bool) (now : Timestamp) :
    Option (Store × Bool) :=
  if frozen then some (s, false)
  else (Word.add? (lineStart address) lineBytes).map fun _ => s.clear address frozen now

end CxlEndpoint.Poison.Store
