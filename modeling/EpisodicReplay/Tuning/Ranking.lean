import EpisodicReplay.Tuning.Parameters

/-! The best outcomes so far, least loss first. -/

namespace EpisodicReplay.Tuning

structure Ranking where
  items : List Outcome
  capacity : Nat
deriving DecidableEq

namespace Ranking

def standardCapacity : Nat := 16

/-- A ranking has room for at least one outcome. -/
def ofCapacity (capacity : Nat) : Ranking :=
  ⟨[], max capacity 1⟩

def empty : Ranking :=
  ofCapacity standardCapacity

def clear (ranking : Ranking) : Ranking :=
  { ranking with items := [] }

/-- Puts an outcome behind all that are at least as good. -/
def insertSorted (candidate : Outcome) (items : List Outcome) : List Outcome :=
  items.takeWhile (·.loss ≤ candidate.loss) ++ candidate :: items.dropWhile (·.loss ≤ candidate.loss)

/-- Adds an outcome of finite loss. A full ranking takes only one that beats its worst, which it drops. -/
def insert (ranking : Ranking) (candidate : Outcome) : Bool × Ranking :=
  if !candidate.isEvaluated then (false, ranking)
  else if ranking.items.length = ranking.capacity then
    match ranking.items.getLast? with
    | some worst =>
      if candidate.loss < worst.loss then
        (true, { ranking with items := insertSorted candidate ranking.items.dropLast })
      else (false, ranking)
    | none => (false, ranking)
  else (true, { ranking with items := insertSorted candidate ranking.items })

def best? (ranking : Ranking) : Option Outcome :=
  ranking.items.head?

end Ranking

end EpisodicReplay.Tuning
