namespace RobotLang.Text

def commonStart : List Char → List Char → Nat
  | a :: as, b :: bs => if a = b then commonStart as bs + 1 else 0
  | _, _ => 0

structure SharedRun where
  left : Nat
  right : Nat
  length : Nat
  deriving DecidableEq, Repr

def sharedRuns (as bs : List Char) : List SharedRun :=
  (List.range as.length).flatMap fun i =>
    (List.range bs.length).map fun j => ⟨i, j, commonStart (as.drop i) (bs.drop j)⟩

def longestRun (as bs : List Char) : SharedRun :=
  (sharedRuns as bs).foldl (fun best run => if best.length < run.length then run else best) ⟨0, 0, 0⟩

/-- The characters shared, over at most `limit` levels of runs inside the remaining pieces. -/
def sharedCount : Nat → List Char → List Char → Nat
  | 0, _, _ => 0
  | limit + 1, as, bs =>
    let run := longestRun as bs
    if run.length = 0 then 0
    else
      run.length + sharedCount limit (as.take run.left) (bs.take run.right) +
        sharedCount limit (as.drop (run.left + run.length)) (bs.drop (run.right + run.length))

def alike (as bs : List Char) : Bool :=
  3 * (as.length + bs.length) ≤ 10 * min as.length bs.length &&
    3 * (as.length + bs.length) ≤ 10 * sharedCount as.length as bs

def similar (known : List String) (s : String) : List String :=
  known.filter fun k => alike k.toList s.toList

end RobotLang.Text
