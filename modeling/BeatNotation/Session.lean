import BeatNotation.Scanner

/-! Sessions: one scanner asked in turn, step by step. A session also has one standing
puller, made at its start, that draws from the same scanner; once a pull has met the
end or a failure the puller is spent and leaves the scanner alone. -/

namespace BeatNotation

inductive Step
  | next
  | peek
  | atEnd
  | file
  | drain
  | take (n : Nat)
  | pull
deriving DecidableEq, Repr

/-- What a step comes to. -/
inductive Answer
  | outcome (o : Outcome)
  | flag (b : Bool)
  | file (name : String)
  | tokens (ts : List Token) (failure? : Option Failure)
deriving DecidableEq, Repr

structure Session where
  scanner : Scanner
  /-- Whether the standing puller still draws. -/
  pulling : Bool := true

namespace Session

/-- One step: its answer, the session after it, and the remarks made. -/
def perform (s : Session) : Step → Reply Session Answer
  | .next =>
    let ⟨outcome, scanner, remarks⟩ := s.scanner.next
    ⟨.outcome outcome, { s with scanner := scanner }, remarks⟩
  | .peek =>
    let ⟨outcome, scanner, remarks⟩ := s.scanner.peek
    ⟨.outcome outcome, { s with scanner := scanner }, remarks⟩
  | .atEnd =>
    let ⟨outcome, scanner, remarks⟩ := s.scanner.peek
    let answer := match outcome with
      | .token _ => .flag false
      | .finish => .flag true
      | .failure f => .outcome (.failure f)
    ⟨answer, { s with scanner := scanner }, remarks⟩
  | .file => ⟨.file s.scanner.cursor.file, s, []⟩
  | .drain =>
    let ⟨(tokens, failure?), scanner, remarks⟩ := s.scanner.drain
    ⟨.tokens tokens failure?, { s with scanner := scanner }, remarks⟩
  | .take n =>
    let ⟨(tokens, failure?), scanner, remarks⟩ := s.scanner.take n
    ⟨.tokens tokens failure?, { s with scanner := scanner }, remarks⟩
  | .pull =>
    if s.pulling then
      let ⟨outcome, scanner, remarks⟩ := s.scanner.next
      ⟨.outcome outcome, ⟨scanner, outcome.token?.isSome⟩, remarks⟩
    else ⟨.outcome .finish, s, []⟩

/-- The replies to a sequence of steps, each step taken after the one before. -/
def run (s : Session) : List Step → List (Reply Session Answer)
  | [] => []
  | step :: steps =>
    let reply := s.perform step
    reply :: reply.state.run steps

end Session

end BeatNotation
