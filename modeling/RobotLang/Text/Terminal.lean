namespace RobotLang.Text

/-- The bell, the backspace, the vertical tab, the form feed and the carriage return. -/
def isCursorControl (c : Char) : Bool := [7, 8, 11, 12, 13].contains c.toNat

def withoutControls (s : String) : String := String.ofList (s.toList.filter (!isCursorControl ·))

def isSequenceParameter (c : Char) : Bool := '0' ≤ c && c ≤ '?'

def isSequenceMark (c : Char) : Bool := ' ' ≤ c && c ≤ '/'

def isSequenceEnd (c : Char) : Bool := '@' ≤ c && c ≤ '~'

/-- The text behind a control sequence, if one is there: an escape, a bracket, parameters, marks
and an end. -/
def afterSequence? : List Char → Option (List Char)
  | '\x1b' :: '[' :: cs =>
    match (cs.dropWhile isSequenceParameter).dropWhile isSequenceMark with
    | c :: rest => if isSequenceEnd c then some rest else none
    | [] => none
  | _ => none

def withoutSequencesUpTo : Nat → List Char → List Char
  | 0, _ => []
  | _, [] => []
  | limit + 1, c :: cs =>
    match afterSequence? (c :: cs) with
    | some rest => withoutSequencesUpTo limit rest
    | none => c :: withoutSequencesUpTo limit cs

def withoutSequences (s : String) : String :=
  String.ofList (withoutSequencesUpTo s.toList.length s.toList)

def plainLines : List Char → List Char
  | [] => []
  | '\r' :: '\n' :: cs => '\n' :: plainLines cs
  | c :: cs => c :: plainLines cs

def withPlainLines (s : String) : String := String.ofList (plainLines s.toList)

theorem plainLines_eq_self {cs : List Char} (h : '\r' ∉ cs) : plainLines cs = cs := by
  fun_induction plainLines cs with
  | case1 => rfl
  | case2 => simp at h
  | case3 c cs _ ih => rw [ih fun hm => h (List.mem_cons_of_mem c hm)]

theorem plainLines_cons {c : Char} {cs : List Char} (h : c = '\r' → cs.head? ≠ some '\n') :
    plainLines (c :: cs) = c :: plainLines cs := by
  rw [plainLines]
  rintro es rfl rfl
  exact h rfl rfl

theorem plainLines_append {as bs : List Char} (h : as.getLast? ≠ some '\r') :
    plainLines (as ++ bs) = plainLines as ++ plainLines bs := by
  fun_induction plainLines as with
  | case1 => rfl
  | case2 cs ih =>
      have hcs : cs.getLast? ≠ some '\r' := by
        cases cs with
        | nil => simp
        | cons c cs => simpa only [List.getLast?_cons_cons] using h
      simp only [List.cons_append, plainLines, ih hcs]
  | case3 c cs hne ih =>
      cases cs with
      | nil =>
          have hc : c ≠ '\r' := by simpa using h
          exact plainLines_cons fun he => absurd he hc
      | cons d cs =>
          rw [List.getLast?_cons_cons] at h
          have hd : c = '\r' → (d :: cs ++ bs).head? ≠ some '\n' := fun hc he =>
            hne cs hc (by rw [Option.some.inj he])
          rw [List.cons_append, plainLines_cons hd, ih h, List.cons_append]

theorem withoutControls_append (s t : String) :
    withoutControls (s ++ t) = withoutControls s ++ withoutControls t := by
  simp only [withoutControls, String.toList_append, List.filter_append, String.ofList_append]

end RobotLang.Text
