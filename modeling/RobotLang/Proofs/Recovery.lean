import RobotLang.Proofs.Reading

namespace RobotLang.Grammar

variable {α : Type}

def separated (c : Char) : List (List Lexeme) → List Lexeme
  | [] => []
  | xs :: rest => xs ++ rest.flatMap fun ys => .symbol c :: ys

def LiteralTree.lexemes : LiteralTree → List Lexeme
  | string v => [.string v]
  | integer n => [.numeral n]
  | boolean b => [.word (booleanText b)]
  /- Real numbers are left out here: what is written for one may be read as a word. -/
  | real _ => []

def LiteralTree.HasLexemes : LiteralTree → Prop
  | real _ => False
  | string _ | integer _ | boolean _ => True

def startsWithString : List ExprTree → Bool
  | .literal _ (.string _) :: _ => true
  | _ => false

namespace ExprTree

mutual

def lexemes : ExprTree → List Lexeme
  | ros _ kind topic args =>
    .word kind.text :: .symbol '(' :: (separated ',' ([.string topic] :: lexemesOf args) ++ [.symbol ')'])
  | call _ n args => .word n :: .symbol '(' :: (separated ',' (lexemesOf args) ++ [.symbol ')'])
  | literal _ value => value.lexemes
  | name _ n => [.word n]

def lexemesOf : List ExprTree → List (List Lexeme)
  | [] => []
  | e :: es => lexemes e :: lexemesOf es

end

mutual

def unmarked : ExprTree → ExprTree
  | ros _ kind topic args => ros 0 kind topic (unmarkedAll args)
  | call _ n args => call 0 n (unmarkedAll args)
  | literal _ value => literal 0 value
  | name _ n => name 0 n

def unmarkedAll : List ExprTree → List ExprTree
  | [] => []
  | e :: es => unmarked e :: unmarkedAll es

end

mutual

def depth : ExprTree → Nat
  | ros _ _ _ args | call _ _ args => depthOf args + 1
  | literal .. | name .. => 1

def depthOf : List ExprTree → Nat
  | [] => 0
  | e :: es => max (depth e) (depthOf es)

end

section Readable

variable (ok : LiteralTree → Prop)

mutual

/-- Nothing in the tree is spelled like something else, and its literals satisfy a condition. -/
def ReadableWith : ExprTree → Prop
  | ros _ _ _ args => AllReadableWith args
  | call _ n args =>
    IsIdentifier n ∧ (∀ k : CallKind, n = k.text → startsWithString args = false) ∧ AllReadableWith args
  | literal _ value => ok value
  | name _ n => IsIdentifier n ∧ n ∉ booleanWords

def AllReadableWith : List ExprTree → Prop
  | [] => True
  | e :: es => ReadableWith e ∧ AllReadableWith es

end

theorem allReadableWith_iff {ok : LiteralTree → Prop} {es : List ExprTree} :
    AllReadableWith ok es ↔ ∀ e ∈ es, ReadableWith ok e := by
  induction es with
  | nil => simp [AllReadableWith]
  | cons e es ih => rw [AllReadableWith, ih, List.forall_mem_cons]

end Readable

/-- The grammar reads the lexemes of the tree as the tree. -/
abbrev Readable : ExprTree → Prop := ReadableWith LiteralTree.HasLexemes

theorem lexemesOf_eq_map (es : List ExprTree) : lexemesOf es = es.map lexemes := by
  induction es with
  | nil => rfl
  | cons e es ih => rw [lexemesOf, ih, List.map_cons]

theorem unmarkedAll_eq_map (es : List ExprTree) : unmarkedAll es = es.map unmarked := by
  induction es with
  | nil => rfl
  | cons e es ih => rw [unmarkedAll, ih, List.map_cons]

theorem depthOf_le_iff {es : List ExprTree} {d : Nat} : depthOf es ≤ d ↔ ∀ e ∈ es, e.depth ≤ d := by
  induction es with
  | nil => simp [depthOf]
  | cons e es ih => rw [depthOf, Nat.max_le, ih, List.forall_mem_cons]

end ExprTree

/-! ### Repetitions -/

section Rows

variable {β γ : Type} {p : Parser α} {lex : β → List Lexeme} {u : α → γ} {v : β → γ} {F : List Lexeme → Prop}
  {bs : List β} {ys : List Lexeme}

theorem runs_of_layout (hp : ∀ b ∈ bs, Reads p (lex b) F fun a => u a = v b)
    (hF : ∀ b ∈ bs, ∀ zs, F (lex b ++ zs)) (hys : F ys) (hstop : Refuses p ys) {s : List Char}
    (hs : Layout (bs.flatMap lex ++ ys) s) :
    ∃ as r, Parser.Runs p s as r ∧ as.map u = bs.map v ∧ Layout ys r := by
  induction bs generalizing s with
  | nil => exact ⟨[], s, .stop (hstop s hs), rfl, hs⟩
  | cons b bs ih =>
      have hrest : F (bs.flatMap lex ++ ys) := by
        cases bs with
        | nil => exact hys
        | cons c cs =>
            rw [List.flatMap_cons, List.append_assoc]
            exact hF c (List.mem_cons_of_mem _ List.mem_cons_self) _
      rw [List.flatMap_cons, List.append_assoc] at hs
      obtain ⟨a, r, ha, hab, hr⟩ := hp b List.mem_cons_self _ s hrest hs
      obtain ⟨as, t, has, hmap, ht⟩ := ih (fun c hc => hp c (List.mem_cons_of_mem _ hc))
        (fun c hc => hF c (List.mem_cons_of_mem _ hc)) hr
      exact ⟨a :: as, t, .step ha has, by rw [List.map_cons, List.map_cons, hab, hmap], ht⟩

theorem length_le_flatMap (h : ∀ b ∈ bs, lex b ≠ []) : bs.length ≤ (bs.flatMap lex).length := by
  induction bs with
  | nil => exact Nat.le_refl 0
  | cons b bs ih =>
      have hb := List.length_pos_iff.2 (h b List.mem_cons_self)
      have hbs := ih fun c hc => h c (List.mem_cons_of_mem _ hc)
      rw [List.flatMap_cons, List.length_append, List.length_cons]
      omega

/-- A row without separators is read if its entries are, and nothing that follows goes on with it. -/
theorem reads_many {G : List Lexeme → Prop} (hp : ∀ b ∈ bs, Reads p (lex b) F fun a => u a = v b)
    (hne : ∀ b ∈ bs, lex b ≠ []) (hF : ∀ b ∈ bs, ∀ zs, F (lex b ++ zs))
    (hG : ∀ ys, G ys → F ys ∧ Refuses p ys) :
    Reads (Parser.many p) (bs.flatMap lex) G fun as => as.map u = bs.map v := by
  intro ys s hys hs
  obtain ⟨as, r, has, hmap, hr⟩ := runs_of_layout hp hF (hG ys hys).1 (hG ys hys).2 hs
  refine ⟨as, r, Parser.run_many_of_runs has ?_, hmap, hr⟩
  have hlen : as.length = bs.length := by simpa using congrArg List.length hmap
  have hle := length_le_flatMap hne
  have hlay := hs.length_le
  rw [List.length_append] at hlay
  omega

end Rows

section Repetitions

variable {p : Parser α} {lex : α → List Lexeme} {u : α → α} {F : List Lexeme → Prop} {c : Char}
  {as : List α} {ys : List Lexeme}

/-- A row with separators is read if its entries are, and nothing that follows goes on with it. -/
theorem reads_sepBy1 {a : α} {G : List Lexeme → Prop} (hp : ∀ b ∈ a :: as, Reads p (lex b) F fun b' => u b' = u b)
    (hF : ∀ zs, F (.symbol c :: zs))
    (hG : ∀ ys, G ys → F ys ∧ Refuses (do let _ ← symbol c; p) ys) :
    Reads (Parser.sepBy1 p (symbol c)) (lex a ++ as.flatMap fun a => .symbol c :: lex a) G
      fun bs => bs.map u = (a :: as).map u := by
  have hmore : Reads (Parser.many (do let _ ← symbol c; p)) (as.flatMap fun a => .symbol c :: lex a) G
      fun bs => bs.map u = as.map u := by
    refine reads_many (fun b hb => ?_) (fun _ _ => List.cons_ne_nil _ _) (fun _ _ _ => hF _) hG
    exact (reads_symbol c).bind (fun _ _ => hp b (List.mem_cons_of_mem _ hb)) fun _ _ => trivial
  rw [← List.append_nil (as.flatMap _)]
  refine (hp a List.mem_cons_self).bind (fun b hb => hmore.bind (fun bs hbs => .pure ?_) fun _ h => h) fun ys hys => ?_
  · rw [List.map_cons, List.map_cons, hb, hbs]
  · cases as with
    | nil => exact (hG ys hys).1
    | cons a as => exact hF _

theorem reads_sepBy {G : List Lexeme → Prop} (hp : ∀ b ∈ as, Reads p (lex b) F fun b' => u b' = u b)
    (hF : ∀ zs, F (.symbol c :: zs))
    (hG : ∀ ys, G ys → F ys ∧ Refuses p ys ∧ Refuses (do let _ ← symbol c; p) ys) :
    Reads (Parser.sepBy p (symbol c)) (separated c (as.map lex)) G fun bs => bs.map u = as.map u := by
  cases as with
  | nil =>
      intro ys s hys hs
      exact ⟨[], s, Parser.run_sepBy_of_none ((hG ys hys).2.1 s hs), rfl, hs⟩
  | cons a as =>
      have h := reads_sepBy1 hp hF fun ys hys => ⟨(hG ys hys).1, (hG ys hys).2.2⟩
      rw [List.map_cons, separated, List.flatMap_map]
      exact h.orElse_left _

end Repetitions

/-! ### Expressions -/

def AfterExpr (ys : List Lexeme) : Prop := ∃ c ∈ [',', ';', ')', '\x7d'], ∃ zs, ys = .symbol c :: zs

def AfterArguments (ys : List Lexeme) : Prop := ∃ zs, ys = .symbol ')' :: zs

theorem AfterExpr.beforeSymbol {ys : List Lexeme} (h : AfterExpr ys) : BeforeSymbol ys := by
  obtain ⟨c, -, zs, rfl⟩ := h
  exact ⟨c, zs, rfl⟩

theorem AfterExpr.head?_ne {ys : List Lexeme} (h : AfterExpr ys) : ys.head? ≠ some (.symbol '(') := by
  obtain ⟨c, hc, zs, rfl⟩ := h
  intro he
  obtain rfl := Lexeme.symbol.inj (Option.some.inj he)
  exact absurd hc (by decide)

theorem AfterArguments.afterExpr {ys : List Lexeme} (h : AfterArguments ys) : AfterExpr ys := by
  obtain ⟨zs, rfl⟩ := h
  exact ⟨')', by decide, zs, rfl⟩

section Expressions

variable {p : Parser ExprTree} {xs ys : List Lexeme}

theorem refuses_rosCall (h : ∀ k : CallKind, xs.head? ≠ some (.word k.text)) : Refuses (rosCall p) xs :=
  (refuses_callKind h).bind _

theorem refuses_call (h : ∀ w, xs.head? ≠ some (.word w)) : Refuses (call p) xs :=
  (refuses_identifier h).bind _

theorem refuses_rosCall_word (w : String) (h : ys.head? ≠ some (.symbol '(')) :
    Refuses (rosCall p) (.word w :: ys) := by
  by_cases hk : ∃ k : CallKind, w = k.text
  · obtain ⟨k, rfl⟩ := hk
    exact show Refuses (rosCall p) ([Lexeme.word k.text] ++ ys) from
      .bind_of_reads (reads_callKind k) trivial fun _ _ => (refuses_symbol (by decide) h).bind _
  · refine refuses_rosCall fun k he => hk ⟨k, ?_⟩
    exact Lexeme.word.inj (Option.some.inj he)

theorem refuses_call_word (w : String) (h : ys.head? ≠ some (.symbol '(')) :
    Refuses (call p) (.word w :: ys) :=
  show Refuses (call p) ([Lexeme.word w] ++ ys) from
    .bind_of_reads (reads_identifier w) trivial fun _ _ => (refuses_symbol (by decide) h).bind _

theorem refuses_literal (hs : ∀ v, xs.head? ≠ some (.string v)) (hn : ∀ n, xs.head? ≠ some (.numeral n))
    (hb : ∀ w ∈ booleanWords, xs.head? ≠ some (.word w)) : Refuses literal xs :=
  ((refuses_string hs).map _).orElse (((refuses_decimal hn).map _).orElse
    (((refuses_integer hn).map _).orElse ((refuses_boolean hb).map _)))

theorem refuses_exprOver (h : ∀ x ∈ xs.head?, ∃ c, x = .symbol c) : Refuses (exprOver p) xs := by
  have hw : ∀ w, xs.head? ≠ some (.word w) := by
    intro w hw
    obtain ⟨c, hc⟩ := h _ hw
    cases hc
  have hs : ∀ v, xs.head? ≠ some (.string v) := by
    intro v hv
    obtain ⟨c, hc⟩ := h _ hv
    cases hc
  have hn : ∀ n, xs.head? ≠ some (.numeral n) := by
    intro n hn
    obtain ⟨c, hc⟩ := h _ hn
    cases hc
  exact (refuses_rosCall fun k => hw k.text).orElse ((refuses_call hw).orElse
    ((refuses_literal hs hn fun w _ => hw w).orElse ((refuses_identifier hw).map _)))

theorem refuses_exprWithin (d : Nat) (h : ∀ x ∈ xs.head?, ∃ c, x = .symbol c) :
    Refuses (exprWithin d) xs := by
  cases d with
  | zero => exact fun s _ => Parser.run_fail s
  | succ d => exact refuses_exprOver h

theorem reads_literal {mark : Nat} {v : LiteralTree} (hv : (ExprTree.literal mark v).Readable) :
    Reads literal v.lexemes AfterExpr fun e => e.unmarked = (ExprTree.literal mark v).unmarked := by
  cases v with
  | string v => exact ((reads_string v).mono (fun _ _ => trivial) fun _ h => h).map (fun t ht => by
      simp only [ExprTree.unmarked, ht]) |>.orElse_left _
  | integer n =>
      refine .orElse_right (fun ys hys => (refuses_string (by simp [LiteralTree.lexemes])).map _) ?_
      refine .orElse_right (fun ys hys => (refuses_decimal_numeral n hys.beforeSymbol).map _) ?_
      refine .orElse_left (((reads_integer n).mono (fun _ h => h.beforeSymbol) fun _ h => h).map ?_) _
      exact fun t ht => by simp only [ExprTree.unmarked, ht]
  | boolean b =>
      refine .orElse_right (fun ys hys => (refuses_string (by simp [LiteralTree.lexemes])).map _) ?_
      refine .orElse_right (fun ys hys => (refuses_decimal (by simp [LiteralTree.lexemes])).map _) ?_
      refine .orElse_right (fun ys hys => (refuses_integer (by simp [LiteralTree.lexemes])).map _) ?_
      refine ((reads_boolean b).mono (fun _ _ => trivial) fun _ h => h).map ?_
      exact fun t ht => by simp only [ExprTree.unmarked, ht]
  | real x => exact hv.elim

/-- A call of the name of a kind of ROS calls is no ROS call if it does not begin with a string. -/
theorem refuses_rosCall_call {k : CallKind} (h : ∀ v, ys.head? ≠ some (.string v)) :
    Refuses (rosCall p) (.word k.text :: .symbol '(' :: ys) :=
  show Refuses (rosCall p) ([Lexeme.word k.text] ++ ([Lexeme.symbol '('] ++ ys)) from
    .bind_of_reads (reads_callKind k) trivial fun _ _ =>
      .bind_of_reads (reads_symbol '(') trivial fun _ _ => (refuses_string h).bind _

theorem refuses_comma {q : Parser α} (hys : AfterArguments ys) :
    Refuses (do let _ ← symbol ','; q) ys := by
  obtain ⟨zs, rfl⟩ := hys
  exact (refuses_symbol (by decide) (by simp)).bind _

variable {args : List ExprTree}

theorem reads_moreArguments
    (hp : ∀ e ∈ args, Reads p e.lexemes AfterExpr fun e' => e'.unmarked = e.unmarked) :
    Reads (Parser.optional (moreArguments p)) (args.flatMap fun e => .symbol ',' :: e.lexemes) AfterArguments
      fun o => (o.getD []).map ExprTree.unmarked = args.map ExprTree.unmarked := by
  intro ys s hys hs
  cases args with
  | nil => exact ⟨none, s, Parser.run_optional_of_none (refuses_comma hys s hs), rfl, hs⟩
  | cons a as =>
      have hmore : Reads (moreArguments p) _ AfterArguments _ :=
        (reads_symbol ',').bind (fun _ _ => reads_sepBy1 hp (fun zs => ⟨',', by decide, zs, rfl⟩)
          fun ys hys => ⟨hys.afterExpr, refuses_comma hys⟩) fun _ _ => trivial
      obtain ⟨es, r, hes, hmap, hr⟩ := hmore ys s hys hs
      exact ⟨some es, r, Parser.run_optional_of_some hes, hmap, hr⟩

theorem reads_rosCall {mark : Nat} (k : CallKind) (topic : String)
    (hp : ∀ e ∈ args, Reads p e.lexemes AfterExpr fun e' => e'.unmarked = e.unmarked) :
    Reads (rosCall p) (ExprTree.ros mark k topic args).lexemes AfterExpr
      fun e => e.unmarked = (ExprTree.ros mark k topic args).unmarked := by
  have hlex : (ExprTree.ros mark k topic args).lexemes = [Lexeme.word k.text] ++ ([Lexeme.symbol '('] ++
      ([Lexeme.string topic] ++
        (args.flatMap (fun e => .symbol ',' :: e.lexemes) ++ ([Lexeme.symbol ')'] ++ [])))) := by
    simp [ExprTree.lexemes, separated, ExprTree.lexemesOf_eq_map, List.flatMap_map]
  rw [hlex]
  refine (reads_callKind k).bind ?_ fun _ _ => trivial
  rintro ⟨mark', kind⟩ hk
  refine (reads_symbol '(').bind (fun _ _ => ?_) fun _ _ => trivial
  refine (reads_string topic).bind ?_ fun _ _ => trivial
  rintro ⟨mark'', topic'⟩ ht
  refine (reads_moreArguments hp).bind (fun o ho => ?_) fun zs _ => ⟨zs, rfl⟩
  refine (reads_symbol ')').bind (fun _ _ => .pure ?_) fun _ _ => trivial
  obtain rfl : kind = k := hk
  obtain rfl : topic' = topic := ht
  simp only [ExprTree.unmarked, ExprTree.unmarkedAll_eq_map, ho]

theorem reads_call {mark : Nat} (name : String)
    (hp : ∀ e ∈ args, Reads p e.lexemes AfterExpr fun e' => e'.unmarked = e.unmarked)
    (hr : ∀ xs, (∀ x ∈ xs.head?, ∃ c, x = Lexeme.symbol c) → Refuses p xs) :
    Reads (call p) (ExprTree.call mark name args).lexemes AfterExpr
      fun e => e.unmarked = (ExprTree.call mark name args).unmarked := by
  have hlex : (ExprTree.call mark name args).lexemes = [Lexeme.word name] ++ ([Lexeme.symbol '('] ++
      (separated ',' (args.map ExprTree.lexemes) ++ ([Lexeme.symbol ')'] ++ []))) := by
    simp [ExprTree.lexemes, ExprTree.lexemesOf_eq_map]
  have hargs : Reads (Parser.sepBy p (symbol ',')) (separated ',' (args.map ExprTree.lexemes)) AfterArguments
      fun es => es.map ExprTree.unmarked = args.map ExprTree.unmarked := by
    refine reads_sepBy hp (fun zs => ⟨',', by decide, zs, rfl⟩) fun ys hys => ⟨hys.afterExpr, ?_, refuses_comma hys⟩
    obtain ⟨zs, rfl⟩ := hys
    exact hr _ fun x hx => ⟨')', (Option.some.inj hx).symm⟩
  rw [hlex]
  refine (reads_identifier name).bind ?_ fun _ _ => trivial
  rintro ⟨mark', name'⟩ hn
  refine (reads_symbol '(').bind (fun _ _ => ?_) fun _ _ => trivial
  refine hargs.bind (fun es hes => ?_) fun zs _ => ⟨zs, rfl⟩
  refine (reads_symbol ')').bind (fun _ _ => .pure ?_) fun _ _ => trivial
  obtain rfl : name' = name := hn
  simp only [ExprTree.unmarked, ExprTree.unmarkedAll_eq_map, hes]

theorem head?_lexemes_ne_string (h : startsWithString args = false) (ha : ExprTree.AllReadableWith LiteralTree.HasLexemes args)
    (v : String) : (separated ',' (args.map ExprTree.lexemes) ++ .symbol ')' :: ys).head? ≠ some (.string v) := by
  cases args with
  | nil => simp [separated]
  | cons e es =>
      rw [List.map_cons, separated]
      rcases e with ⟨mark, k, topic, args⟩ | ⟨mark, name, args⟩ | ⟨mark, _ | _ | _ | _⟩ | ⟨mark, n⟩
      case literal.string => simp [startsWithString] at h
      case literal.real => exact ha.1.elim
      all_goals simp [ExprTree.lexemes, LiteralTree.lexemes]

/-- Every expression is read from every layout of it, however deep the nesting is allowed to be. -/
theorem reads_exprWithin (d : Nat) (e : ExprTree) (he : e.Readable) (hd : e.depth ≤ d) :
    Reads (exprWithin d) e.lexemes AfterExpr fun e' => e'.unmarked = e.unmarked := by
  induction d generalizing e with
  | zero => cases e <;> simp [ExprTree.depth] at hd
  | succ d ih =>
      cases e with
      | ros mark k topic args =>
          have hargs := ExprTree.allReadableWith_iff.1 he
          have hdepth := ExprTree.depthOf_le_iff.1 (Nat.le_of_succ_le_succ hd)
          exact (reads_rosCall k topic fun e hm => ih e (hargs e hm) (hdepth e hm)).orElse_left _
      | call mark name args =>
          obtain ⟨-, hros, hall⟩ := he
          have hargs := ExprTree.allReadableWith_iff.1 hall
          have hdepth := ExprTree.depthOf_le_iff.1 (Nat.le_of_succ_le_succ hd)
          refine .orElse_right (fun ys hys => ?_) (.orElse_left (reads_call name
            (fun e hm => ih e (hargs e hm) (hdepth e hm)) fun xs hxs => refuses_exprWithin d hxs) _)
          -- Only its first argument, which is no string, keeps a call of such a name from being a ROS call.
          by_cases hk : ∃ k : CallKind, name = k.text
          · obtain ⟨k, rfl⟩ := hk
            simp only [ExprTree.lexemes, ExprTree.lexemesOf_eq_map, List.cons_append, List.append_assoc]
            exact refuses_rosCall_call (head?_lexemes_ne_string (hros k rfl) hall)
          · exact refuses_rosCall fun k he => hk ⟨k, Lexeme.word.inj (Option.some.inj he)⟩
      | literal mark v =>
          refine .orElse_right (fun ys hys => ?_) (.orElse_right (fun ys hys => ?_) ((reads_literal he).orElse_left _))
          · cases v with
            | boolean b => exact refuses_rosCall_word _ hys.head?_ne
            | real x => exact he.elim
            | string v => exact refuses_rosCall (by simp [ExprTree.lexemes, LiteralTree.lexemes])
            | integer n => exact refuses_rosCall (by simp [ExprTree.lexemes, LiteralTree.lexemes])
          · cases v with
            | boolean b => exact refuses_call_word _ hys.head?_ne
            | real x => exact he.elim
            | string v => exact refuses_call (by simp [ExprTree.lexemes, LiteralTree.lexemes])
            | integer n => exact refuses_call (by simp [ExprTree.lexemes, LiteralTree.lexemes])
      | name mark n =>
          obtain ⟨-, hb⟩ := he
          refine .orElse_right (fun ys hys => refuses_rosCall_word n hys.head?_ne) ?_
          refine .orElse_right (fun ys hys => refuses_call_word n hys.head?_ne) ?_
          refine .orElse_right (fun ys hys => ?_) ?_
          · refine refuses_literal (fun v he => ?_) (fun m he => ?_) fun w hw he => hb ?_
            · cases he
            · cases he
            · obtain rfl := Lexeme.word.inj (Option.some.inj he)
              exact hw
          · refine ((reads_identifier n).mono (fun _ _ => trivial) fun _ h => h).map ?_
            exact fun t ht => by simp only [ExprTree.unmarked, ht]

theorem length_flatMap_le_separated (c : Char) (rows : List (List Lexeme)) :
    (rows.flatMap fun xs => Lexeme.symbol c :: xs).length ≤ (separated c rows).length + 1 := by
  cases rows with
  | nil => exact Nat.zero_le _
  | cons xs rest =>
      simp only [separated, List.flatMap_cons, List.length_append, List.length_cons]
      omega

mutual

theorem depth_le_length : ∀ e : ExprTree, e.Readable → e.depth ≤ e.lexemes.length
  | .ros _ _ _ args, h => by
      have ih := depthOf_le_length args h
      simp only [ExprTree.depth, ExprTree.lexemes, separated, List.length_cons, List.length_append]
      omega
  | .call _ _ args, h => by
      have ih := depthOf_le_length args h.2.2
      have hs := length_flatMap_le_separated ',' (ExprTree.lexemesOf args)
      simp only [ExprTree.depth, ExprTree.lexemes, List.length_cons, List.length_append]
      omega
  | .literal _ v, h => by
      cases v with
      | real x => exact h.elim
      | string _ | integer _ | boolean _ => exact Nat.le_refl 1
  | .name _ _, _ => Nat.le_refl 1

theorem depthOf_le_length : ∀ es : List ExprTree, ExprTree.AllReadableWith LiteralTree.HasLexemes es →
    ExprTree.depthOf es ≤ ((ExprTree.lexemesOf es).flatMap fun xs => Lexeme.symbol ',' :: xs).length
  | [], _ => Nat.le_refl 0
  | e :: es, h => by
      have he := depth_le_length e h.1
      have ih := depthOf_le_length es h.2
      simp only [ExprTree.depthOf, ExprTree.lexemesOf, List.flatMap_cons, List.length_append, List.length_cons]
      omega

end

theorem run_expr (s : List Char) : expr.run s = (exprWithin (s.length + 1)).run s := by
  rw [Parser.run, Parser.run, expr]

theorem reads_expr {e : ExprTree} (he : e.Readable) :
    Reads expr e.lexemes AfterExpr fun e' => e'.unmarked = e.unmarked := by
  intro ys s hys hs
  have hlen := hs.length_le
  have hd := depth_le_length e he
  rw [List.length_append] at hlen
  rw [run_expr]
  exact reads_exprWithin (s.length + 1) e he (by omega) ys s hys hs

theorem refuses_expr (h : ∀ x ∈ xs.head?, ∃ c, x = .symbol c) : Refuses expr xs := by
  intro s hs
  rw [run_expr]
  exact refuses_exprWithin (s.length + 1) h s hs

end Expressions

/-! ### Declarations -/

def ParameterTree.lexemes (p : ParameterTree) : List Lexeme :=
  [.word p.name, .symbol ':', .word p.typeName]

def ParameterTree.unmarked (p : ParameterTree) : ParameterTree := { p with mark := 0, typeMark := 0 }

def parameterLexemes (ps : List ParameterTree) : List Lexeme :=
  .symbol '(' :: (separated ',' (ps.map ParameterTree.lexemes) ++ [.symbol ')'])

def bodyLexemes (semicolon : Bool) (es : List ExprTree) : List Lexeme :=
  .symbol '\x7b' :: (separated ';' (es.map ExprTree.lexemes) ++
    ((if semicolon then [.symbol ';'] else []) ++ [.symbol '\x7d']))

namespace Declaration

def lexemes (semicolon : Bool) : Declaration → List Lexeme
  | includes file => [.word "include", .string file]
  | robot _ name => [.word "robot", .word name]
  | type _ name => [.word "type", .word name]
  | function _ name ps body =>
    .word "fn" :: .word name :: (parameterLexemes ps ++ bodyLexemes semicolon body)
  | method _ name ps => .word "method" :: .word name :: parameterLexemes ps

def unmarked : Declaration → Declaration
  | includes file => includes file
  | robot _ name => robot 0 name
  | type _ name => type 0 name
  | function _ name ps body =>
    function 0 name (ps.map ParameterTree.unmarked) (body.map ExprTree.unmarked)
  | method _ name ps => method 0 name (ps.map ParameterTree.unmarked)

def Readable : Declaration → Prop
  | function _ _ _ body => ∀ e ∈ body, e.Readable
  | _ => True

end Declaration

theorem reads_parameter (p : ParameterTree) :
    Reads parameter p.lexemes anything fun q => q.unmarked = p.unmarked := by
  have hlex : p.lexemes =
      [Lexeme.word p.name] ++ ([Lexeme.symbol ':'] ++ ([Lexeme.word p.typeName] ++ [])) := rfl
  rw [hlex]
  refine (reads_identifier p.name).bind ?_ fun _ _ => trivial
  rintro ⟨mark, name⟩ hn
  refine (reads_symbol ':').bind (fun _ _ => ?_) fun _ _ => trivial
  refine (reads_identifier p.typeName).bind ?_ fun _ _ => trivial
  rintro ⟨typeMark, typeName⟩ ht
  refine .pure ?_
  obtain rfl : name = p.name := hn
  obtain rfl : typeName = p.typeName := ht
  rfl

theorem reads_parameters (ps : List ParameterTree) :
    Reads parameters (parameterLexemes ps) anything
      fun qs => qs.map ParameterTree.unmarked = ps.map ParameterTree.unmarked := by
  have hps : Reads (Parser.sepBy parameter (symbol ',')) (separated ',' (ps.map ParameterTree.lexemes))
      AfterArguments fun qs => qs.map ParameterTree.unmarked = ps.map ParameterTree.unmarked := by
    refine reads_sepBy (fun p _ => reads_parameter p) (fun _ => trivial) fun ys hys => ⟨trivial, ?_, refuses_comma hys⟩
    obtain ⟨zs, rfl⟩ := hys
    exact (refuses_identifier (by simp)).bind _
  have hlex : parameterLexemes ps =
      [Lexeme.symbol '('] ++
        (separated ',' (ps.map ParameterTree.lexemes) ++ ([Lexeme.symbol ')'] ++ [])) := rfl
  rw [hlex]
  refine (reads_symbol '(').bind (fun _ _ => ?_) fun _ _ => trivial
  refine hps.bind (fun qs hqs => ?_) fun zs _ => ⟨zs, rfl⟩
  exact (reads_symbol ')').bind (fun _ _ => .pure hqs) fun _ _ => trivial

def AfterBody (ys : List Lexeme) : Prop :=
  ∃ zs, ys = .symbol '\x7d' :: zs ∨ ys = .symbol ';' :: .symbol '\x7d' :: zs

theorem refuses_semicolon {ys : List Lexeme} (hys : AfterBody ys) :
    Refuses (do let _ ← symbol ';'; expr) ys := by
  obtain ⟨zs, rfl | rfl⟩ := hys
  · exact (refuses_symbol (by decide) (by simp)).bind _
  · exact show Refuses _ ([Lexeme.symbol ';'] ++ .symbol '\x7d' :: zs) from
      .bind_of_reads (reads_symbol ';') trivial fun _ _ => refuses_expr fun x hx => ⟨_, (Option.some.inj hx).symm⟩

theorem reads_body (semicolon : Bool) {es : List ExprTree} (hes : ∀ e ∈ es, e.Readable) :
    Reads body (bodyLexemes semicolon es) anything
      fun fs => fs.map ExprTree.unmarked = es.map ExprTree.unmarked := by
  have hrow : Reads (Parser.sepBy expr (symbol ';')) (separated ';' (es.map ExprTree.lexemes)) AfterBody
      fun fs => fs.map ExprTree.unmarked = es.map ExprTree.unmarked := by
    refine reads_sepBy (fun e he => reads_expr (hes e he)) (fun zs => ⟨';', by decide, zs, rfl⟩)
      fun ys hys => ⟨?_, ?_, refuses_semicolon hys⟩
    · obtain ⟨zs, rfl | rfl⟩ := hys
      · exact ⟨'\x7d', by decide, zs, rfl⟩
      · exact ⟨';', by decide, _, rfl⟩
    · obtain ⟨zs, rfl | rfl⟩ := hys <;> exact refuses_expr fun x hx => ⟨_, (Option.some.inj hx).symm⟩
  have hend : Reads (Parser.optional (symbol ';')) (if semicolon then [Lexeme.symbol ';'] else [])
      (fun ys => ∃ zs, ys = .symbol '\x7d' :: zs) fun _ => True := by
    intro ys s hys hs
    cases semicolon with
    | true =>
        obtain ⟨t, r, ht, -, hr⟩ := reads_symbol ';' ys s trivial hs
        exact ⟨some t, r, Parser.run_optional_of_some ht, trivial, hr⟩
    | false =>
        obtain ⟨zs, rfl⟩ := hys
        exact ⟨none, s, Parser.run_optional_of_none (refuses_symbol (by decide) (by simp) s hs), trivial, hs⟩
  have hlex : bodyLexemes semicolon es = [Lexeme.symbol '\x7b'] ++ (separated ';' (es.map ExprTree.lexemes) ++
      ((if semicolon then [Lexeme.symbol ';'] else []) ++ ([Lexeme.symbol '\x7d'] ++ []))) := rfl
  rw [hlex]
  refine (reads_symbol '\x7b').bind (fun _ _ => ?_) fun _ _ => trivial
  refine hrow.bind (fun fs hfs => ?_) fun zs _ => ?_
  · refine hend.bind (fun _ _ => ?_) fun zs _ => ⟨zs, rfl⟩
    exact (reads_symbol '\x7d').bind (fun _ _ => .pure hfs) fun _ _ => trivial
  · cases semicolon with
    | true => exact ⟨zs, .inr rfl⟩
    | false => exact ⟨zs, .inl rfl⟩

theorem reads_includeDeclaration (file : String) :
    Reads includeDeclaration ([Lexeme.word "include"] ++ ([Lexeme.string file] ++ [])) anything
      fun d => d.unmarked = .includes file := by
  refine (reads_word (by decide)).bind (fun _ _ => ?_) fun _ _ => trivial
  refine (reads_string file).bind ?_ fun _ _ => trivial
  rintro ⟨mark, file'⟩ hf
  obtain rfl : file' = file := hf
  exact .pure rfl

theorem reads_heading {w : String} (hw : IsIdentifier w) {name : String} {f : Nat × Unit → Parser α}
    {g : Nat → Nat × String → Parser α} (hf : ∀ mark u, f (mark, u) = identifier >>= g mark)
    {xs : List Lexeme} {F : List Lexeme → Prop} {Q : α → Prop}
    (h : ∀ mark mark', Reads (g mark (mark', name)) xs F Q) :
    Reads (word w >>= f) (.word w :: .word name :: xs) F Q := by
  have hread : Reads (word w >>= f) ([Lexeme.word w] ++ ([Lexeme.word name] ++ xs)) F Q := by
    refine (reads_word hw).bind (fun t _ => ?_) fun _ _ => trivial
    rw [hf t.1 t.2]
    refine (reads_identifier name).bind ?_ fun _ _ => trivial
    rintro ⟨mark', n⟩ hn
    obtain rfl : n = name := hn
    exact h t.1 mark'
  exact hread

theorem reads_robotDeclaration (name : String) :
    Reads robotDeclaration [.word "robot", .word name] anything fun d => d.unmarked = .robot 0 name := by
  refine reads_heading (by decide) (fun _ _ => rfl) fun _ _ => ?_
  exact .pure rfl

theorem reads_typeDeclaration (name : String) :
    Reads typeDeclaration [.word "type", .word name] anything fun d => d.unmarked = .type 0 name := by
  refine reads_heading (by decide) (fun _ _ => rfl) fun _ _ => ?_
  exact .pure rfl

theorem reads_functionDeclaration (semicolon : Bool) (name : String) (ps : List ParameterTree)
    {es : List ExprTree} (hes : ∀ e ∈ es, e.Readable) :
    Reads functionDeclaration (.word "fn" :: .word name :: (parameterLexemes ps ++ bodyLexemes semicolon es)) anything
      fun d => d.unmarked = (Declaration.function 0 name ps es).unmarked := by
  refine reads_heading (by decide) (fun _ _ => rfl) fun _ _ => ?_
  refine (reads_parameters ps).bind (fun qs hqs => ?_) fun _ _ => trivial
  refine (reads_body semicolon hes).bind_pure fun fs hfs => ?_
  simp only [Declaration.unmarked, hqs, hfs]

theorem reads_methodDeclaration (name : String) (ps : List ParameterTree) :
    Reads methodDeclaration (.word "method" :: .word name :: parameterLexemes ps) anything
      fun d => d.unmarked = (Declaration.method 0 name ps).unmarked := by
  refine reads_heading (by decide) (fun _ _ => rfl) fun _ _ => ?_
  refine (reads_parameters ps).bind_pure fun qs hqs => ?_
  simp only [Declaration.unmarked, hqs]

theorem refuses_keyword {v w : String} (hw : IsIdentifier w) (hne : v ≠ w) (f : Nat × Unit → Parser α)
    (xs : List Lexeme) : Refuses (word w >>= f) (.word v :: xs) := by
  refine (refuses_word hw fun he => ?_).bind f
  exact hne (Lexeme.word.inj (Option.some.inj he))

theorem reads_declaration (semicolon : Bool) {d : Declaration} (hd : d.Readable) :
    Reads declaration (d.lexemes semicolon) anything fun d' => d'.unmarked = d.unmarked := by
  cases d with
  | includes file => exact (reads_includeDeclaration file).orElse_left _
  | robot mark name =>
      exact .orElse_right (fun _ _ => refuses_keyword (by decide) (by decide) _ _)
        ((reads_robotDeclaration name).orElse_left _)
  | type mark name =>
      exact .orElse_right (fun _ _ => refuses_keyword (by decide) (by decide) _ _)
        (.orElse_right (fun _ _ => refuses_keyword (by decide) (by decide) _ _)
          ((reads_typeDeclaration name).orElse_left _))
  | function mark name ps es =>
      exact .orElse_right (fun _ _ => refuses_keyword (by decide) (by decide) _ _)
        (.orElse_right (fun _ _ => refuses_keyword (by decide) (by decide) _ _)
          (.orElse_right (fun _ _ => refuses_keyword (by decide) (by decide) _ _)
            ((reads_functionDeclaration semicolon name ps hd).orElse_left _)))
  | method mark name ps =>
      exact .orElse_right (fun _ _ => refuses_keyword (by decide) (by decide) _ _)
        (.orElse_right (fun _ _ => refuses_keyword (by decide) (by decide) _ _)
          (.orElse_right (fun _ _ => refuses_keyword (by decide) (by decide) _ _)
            (.orElse_right (fun _ _ => refuses_keyword (by decide) (by decide) _ _)
              (reads_methodDeclaration name ps))))

theorem refuses_declaration {xs : List Lexeme}
    (h : ∀ w ∈ ["include", "robot", "type", "fn", "method"], xs.head? ≠ some (.word w)) :
    Refuses declaration xs := by
  have hw : ∀ w ∈ ["include", "robot", "type", "fn", "method"], Refuses (word w) xs := fun w hw =>
    refuses_word ((by decide : ∀ w ∈ ["include", "robot", "type", "fn", "method"], IsIdentifier w) w hw) (h w hw)
  exact ((hw "include" (by decide)).bind _).orElse (((hw "robot" (by decide)).bind _).orElse
    (((hw "type" (by decide)).bind _).orElse (((hw "fn" (by decide)).bind _).orElse
      ((hw "method" (by decide)).bind _))))

def programLexemes (ds : List (Bool × Declaration)) : List Lexeme := ds.flatMap fun d => d.2.lexemes d.1

theorem run_finish_of_reads {p : Parser α} {xs : List Lexeme} {Q : α → Prop} (h : Reads p xs (· = []) Q)
    {s : List Char} (hs : Layout xs s) :
    ∃ a, (do let a ← p; let _ ← finish; pure a).run s = some (a, []) ∧ Q a := by
  rw [← List.append_nil xs] at hs
  obtain ⟨a, r, ha, hq, hr⟩ := h [] s rfl hs
  have hfinish : finish.run r = some ((0, ()), []) := by
    cases hr with
    | nil hr =>
        rw [finish, run_token, skip_finalGap hr]
        rfl
  exact ⟨a, by rw [Parser.run_bind_of_some ha, Parser.run_bind_of_some hfinish, Parser.run_pure], hq⟩

/-- A program is recovered from every layout of it, up to marks. -/
theorem run_program_of_layout {ds : List (Bool × Declaration)} (hds : ∀ d ∈ ds, d.2.Readable) {s : List Char}
    (hs : Layout (programLexemes ds) s) :
    ∃ es, program.run s = some (es, []) ∧
      es.map Declaration.unmarked = ds.map (fun d => d.2.unmarked) := by
  refine run_finish_of_reads (reads_many (fun d hd => reads_declaration d.1 (hds d hd)) (fun d _ => ?_)
    (fun _ _ _ => trivial) ?_) hs
  · cases d.2 <;> exact List.cons_ne_nil _ _
  · rintro _ rfl
    exact ⟨trivial, refuses_declaration fun _ _ => nofun⟩

end RobotLang.Grammar
