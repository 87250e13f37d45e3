import JourneyPlanner.Search.Round

/-!
Iterations over the search window, and rounds within each iteration. An
iteration ends with the first round that finds nothing new to go on from.
-/

namespace JourneyPlanner
namespace Search

/-- Asks whether to stop. -/
def ask (s : Search) (p : Progress) : Option SearchStatus × Progress :=
  (s.supervisor.verdict s.timeout p.checks p.arrivalReports, { p with checks := p.checks + 1 })

/-- One round; of the labels of the round before only new ones are followed. -/
def playRound (s : Search) (round : Nat) (p : Progress) : Except InternalFault Progress := do
  let p ← s.transitPhase round p
  let p ← s.transferPhase round p
  return { p with highestRound := max p.highestRound round }

/-- Plays `count` rounds from `round` on, with the status if stopped. -/
def playRounds (s : Search) : Nat → Nat → Progress →
    Except InternalFault (Option SearchStatus × Progress)
  | 0, _, p => .ok (none, p)
  | count + 1, round, p =>
    if (p.table.touchedIn (round - 1)).isEmpty then .ok (none, p)
    else
      match s.ask p with
      | (some status, p) => .ok (some status, p)
      | (none, p) => do
        let p ← s.playRound round p
        playRounds s count (round + 1) p

def begin (p : Progress) (time : Time) : Progress :=
  { p with
    table := p.table.startIteration
    searched := time :: p.searched }

def iterations (s : Search) : List Time → Progress → Except InternalFault (SearchStatus × Progress)
  | [], p => .ok (.complete, p)
  | time :: times, p =>
    match s.ask p with
    | (some status, p) => .ok (status, p)
    | (none, p) => do
      let p ← s.seed (begin p time) time
      match ← s.playRounds s.maxRounds 1 p with
      | (some status, p) => return (status, p)
      | (none, p) => iterations s times p

def run (s : Search) : Except InternalFault (SearchStatus × Progress) :=
  s.iterations s.times s.start

end Search
end JourneyPlanner
