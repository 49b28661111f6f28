/-!
# Fresh names

Names that are made new by a number at the end.

## Main definitions

* `Text.numbered` — `name`, `name2`, `name3`, …
* `Text.firstNumbered` — the first of them that suits
* `Text.firstCounted` — the first of `name1`, `name2`, … after a given number that suits

## Design notes

Both searches look at a bounded number of candidates. Different numbers give different names, so
among one candidate more than there are names in use there is always a free one.

The numbers are natural numbers. Counted in a signed word of 32 bits they would be the same up to
2147483647, and a search comes that far only if as many names are in use.
-/

namespace ViewGen.Text

/-- `name`, `name2`, `name3` and so on. -/
def numbered (base : String) : Nat → String
  | 0 => base
  | n + 1 => base ++ toString (n + 2)

/-- The first of `count` numbered names that suits. -/
def firstNumbered (base : String) (count : Nat) (suits : String → Bool) : Option String :=
  ((List.range count).map (numbered base)).find? suits

/-- The first of the `count` numbers after `start` whose name suits. -/
def firstCounted (base : String) (start count : Nat) (suits : String → Bool) : Option Nat :=
  ((List.range count).map (start + 1 + ·)).find? fun n => suits (base ++ toString n)

end ViewGen.Text
