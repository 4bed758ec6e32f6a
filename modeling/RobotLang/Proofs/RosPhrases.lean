import RobotLang.Proofs.RoundTrip
import RobotLang.Proofs.StageOrder
import RobotLang.Proofs.TokensRead

namespace RobotLang

open Grammar

/-- A kind of call, its topic, and what is written between the topic and the bracket that closes. -/
structure RosPhrase where
  kind : CallKind
  topic : String
  arguments : List Token
  deriving DecidableEq, Repr

/-- The tokens up to the bracket that closes, so many others having been opened. -/
def upToClosing : Nat → List Token → List Token
  | _, [] => []
  | depth, t :: ts =>
    if t = .symbol '(' then t :: upToClosing (depth + 1) ts
    else if t = .symbol ')' then
      match depth with
      | 0 => []
      | depth + 1 => t :: upToClosing depth ts
    else t :: upToClosing depth ts

@[simp] theorem upToClosing_open (depth : Nat) (ts : List Token) :
    upToClosing depth (.symbol '(' :: ts) = .symbol '(' :: upToClosing (depth + 1) ts := by
  simp [upToClosing]

@[simp] theorem upToClosing_close (depth : Nat) (ts : List Token) :
    upToClosing (depth + 1) (.symbol ')' :: ts) = .symbol ')' :: upToClosing depth ts := by
  simp [upToClosing]

@[simp] theorem upToClosing_zero (ts : List Token) : upToClosing 0 (.symbol ')' :: ts) = [] := by
  simp [upToClosing]

theorem upToClosing_cons {t : Token} (hopen : t ≠ .symbol '(') (hclose : t ≠ .symbol ')') (depth : Nat)
    (ts : List Token) : upToClosing depth (t :: ts) = t :: upToClosing depth ts := by
  cases depth <;> simp [upToClosing, hopen, hclose]

def phraseAt? : List Token → Option RosPhrase
  | .word w :: .symbol '(' :: .string v :: ts => (CallKind.ofText? w).map fun k => ⟨k, v, upToClosing 0 ts⟩
  | _ => none

/-- The phrases in a row of tokens, in the order in which they begin. -/
def phrasesIn : List Token → List RosPhrase
  | [] => []
  | t :: ts => (phraseAt? (t :: ts)).toList ++ phrasesIn ts

def RosPhrase.call (p : RosPhrase) : RosCall := ⟨p.topic, p.kind⟩

namespace Expr

mutual

def phrases : Expr → List RosPhrase
  | literal .. | reference .. | abstract => []
  | call _ args _ _ => phrasesOf args
  | ros kind topic args _ => ⟨kind, topic, tokensAfter ',' args⟩ :: phrasesOf args

def phrasesOf : List Expr → List RosPhrase
  | [] => []
  | e :: es => phrases e ++ phrasesOf es

end

mutual

theorem map_call_phrases : ∀ e : Expr, e.phrases.map RosPhrase.call = e.rosCalls
  | literal .. | reference .. | abstract => rfl
  | call _ args _ _ => by rw [phrases, rosCalls, map_call_phrasesOf args]
  | ros kind topic args _ => by
      rw [phrases, rosCalls, List.map_cons, map_call_phrasesOf args]
      rfl

theorem map_call_phrasesOf : ∀ es : List Expr, (phrasesOf es).map RosPhrase.call = rosCallsOf es
  | [] => rfl
  | e :: es => by rw [phrasesOf, rosCallsOf, List.map_append, map_call_phrases e, map_call_phrasesOf es]

end

end Expr

/-! ### Brackets -/

/-- Every bracket that is opened among the tokens is closed among them. -/
def Balanced (ts : List Token) : Prop := ∀ depth us, upToClosing depth (ts ++ us) = ts ++ upToClosing depth us

namespace Balanced

variable {t : Token} {ts us : List Token}

theorem nil : Balanced [] := fun _ _ => rfl

theorem append (h : Balanced ts) (h' : Balanced us) : Balanced (ts ++ us) := by
  intro depth vs
  rw [List.append_assoc, h, h', List.append_assoc]

theorem cons (hopen : t ≠ .symbol '(') (hclose : t ≠ .symbol ')') (h : Balanced ts) : Balanced (t :: ts) := by
  intro depth us
  rw [List.cons_append, upToClosing_cons hopen hclose, h, List.cons_append]

theorem parenthesized (h : Balanced ts) : Balanced (.symbol '(' :: (ts ++ [.symbol ')'])) := by
  intro depth us
  rw [List.cons_append, upToClosing_open, List.append_assoc, h, List.singleton_append, upToClosing_close,
    List.cons_append, List.append_assoc, List.singleton_append]

theorem ofWord (w : String) (h : Balanced ts) : Balanced (.ofWord w :: ts) := h.cons nofun nofun

end Balanced

namespace Expr

theorem balanced_tokensAfter {separator : Char} (ho : separator ≠ '(') (hc : separator ≠ ')') {es : List Expr}
    (h : ∀ e ∈ es, Balanced e.tokens) : Balanced (tokensAfter separator es) := by
  induction es with
  | nil => exact .nil
  | cons e es ih =>
      obtain ⟨he, hes⟩ := List.forall_mem_cons.1 h
      refine Balanced.cons ?_ ?_ (he.append (ih hes))
      · exact fun hs => ho (Token.symbol.inj hs)
      · exact fun hs => hc (Token.symbol.inj hs)

theorem tokensAfter_drop {P : List Token → Prop} (hnil : P []) {separator : Char} {es : List Expr}
    (h : ∀ e fs, es = e :: fs → P (e.tokens ++ tokensAfter separator fs)) : P ((tokensAfter separator es).drop 1) := by
  cases es with
  | nil => exact hnil
  | cons e fs => exact h e fs rfl

mutual

theorem balanced_tokens : ∀ e : Expr, Balanced e.tokens
  | literal (.string _) _ | literal (.boolean _) _ | literal (.integer _) _ | literal (.real _) _ => by
      apply Balanced.nil.cons <;> exact nofun
  | reference name _ _ => Balanced.nil.ofWord name
  | abstract => .nil
  | call name args _ _ => by
      have hargs := balanced_tokensOf args
      refine .ofWord name (.parenthesized (tokensAfter_drop .nil ?_))
      rintro e es rfl
      obtain ⟨he, hes⟩ := List.forall_mem_cons.1 hargs
      exact he.append (balanced_tokensAfter (by decide) (by decide) hes)
  | ros kind topic args _ => by
      have hafter : Balanced (tokensAfter ',' args) :=
        balanced_tokensAfter (by decide) (by decide) (balanced_tokensOf args)
      exact .ofWord kind.text (.parenthesized (.cons (t := .string topic) nofun nofun hafter))

theorem balanced_tokensOf : ∀ es : List Expr, ∀ e ∈ es, Balanced e.tokens
  | [] => fun _ he => by cases he
  | e :: es => List.forall_mem_cons.2 ⟨balanced_tokens e, balanced_tokensOf es⟩

end

theorem upToClosing_arguments (args : List Expr) (ts : List Token) :
    upToClosing 0 (tokensAfter ',' args ++ .symbol ')' :: ts) = tokensAfter ',' args := by
  rw [balanced_tokensAfter (by decide) (by decide) (fun e _ => balanced_tokens e), upToClosing_zero,
    List.append_nil]

end Expr

/-! ### Phrases -/

/-- In front of tokens that do not begin with an opening bracket, the tokens hold these phrases. -/
def Phrased (ts : List Token) (ps : List RosPhrase) : Prop :=
  ∀ us, us.head? ≠ some (.symbol '(') → phrasesIn (ts ++ us) = ps ++ phrasesIn us

theorem phrasesIn_symbol (c : Char) (ts : List Token) : phrasesIn (.symbol c :: ts) = phrasesIn ts := rfl

theorem phrasesIn_string (v : String) (ts : List Token) : phrasesIn (.string v :: ts) = phrasesIn ts := rfl

theorem phraseAt?_word {w : String} {ts : List Token} (h : ts.head? ≠ some (.symbol '(')) :
    phraseAt? (.word w :: ts) = none := by
  rw [phraseAt?]
  intro w' v us he
  obtain ⟨-, rfl⟩ := List.cons.inj he
  exact h rfl

namespace Phrased

variable {t : Token} {ts us : List Token} {ps qs : List RosPhrase}

theorem nil : Phrased [] [] := fun _ _ => rfl

theorem append (h : Phrased ts ps) (h' : Phrased us qs) (hu : us.head? ≠ some (.symbol '(')) :
    Phrased (ts ++ us) (ps ++ qs) := by
  intro vs hvs
  rw [List.append_assoc, h, h' vs hvs, List.append_assoc]
  cases us with
  | nil => exact hvs
  | cons u us => exact hu

theorem cons (ht : ∀ w, t ≠ .word w) (h : Phrased ts ps) : Phrased (t :: ts) ps := by
  intro us hus
  cases t with
  | word w => exact absurd rfl (ht w)
  | string v | real x | integer n | symbol c => exact h us hus

theorem word (w : String) : Phrased [.word w] [] := by
  intro us hus
  rw [List.singleton_append, phrasesIn, phraseAt?_word hus]
  rfl

theorem word_cons (w : String) (h : Phrased ts ps) (ht : ts.head? ≠ some (.symbol '(')) :
    Phrased (.word w :: ts) ps :=
  (word w).append h ht

theorem of_symbol {c : Char} (h : Phrased (.symbol c :: ts) ps) : Phrased ts ps := fun us hus => h us hus

theorem closed (h : Phrased ts ps) : Phrased (ts ++ [.symbol ')']) ps := by
  have hclose : Phrased [.symbol ')'] [] := nil.cons nofun
  have := h.append hclose (by decide)
  rwa [List.append_nil] at this

section Rows

variable {α : Type} {spelling : α → List Token} {f : α → List RosPhrase} {c : Char} {as : List α}

theorem flatMap (hc : c ≠ '(') (h : ∀ a ∈ as, Phrased (spelling a) (f a)) :
    Phrased (as.flatMap fun a => .symbol c :: spelling a) (as.flatMap f) := by
  induction as with
  | nil => exact .nil
  | cons a as ih =>
      obtain ⟨ha, has⟩ := List.forall_mem_cons.1 h
      refine .append (.cons nofun ha) (ih has) ?_
      cases as with
      | nil => exact nofun
      | cons b as => exact fun hb => hc (Token.symbol.inj (Option.some.inj hb))

theorem separated (hc : c ≠ '(') (h : ∀ a ∈ as, Phrased (spelling a) (f a)) :
    Phrased ((as.flatMap fun a => .symbol c :: spelling a).drop 1) (as.flatMap f) := by
  have hall := flatMap hc h
  cases as with
  | nil => exact .nil
  | cons a as => exact hall.of_symbol

end Rows

end Phrased

theorem ofText?_eq_some {w : String} {k : CallKind} (h : CallKind.ofText? w = some k) : w = k.text := by
  unfold CallKind.ofText? at h
  split at h
  · cases h; rfl
  · cases h; rfl
  · cases h; rfl
  · cases h

theorem phraseAt?_call {name : String} {ts : List Token}
    (h : ∀ k : CallKind, name = k.text → ∀ v, ts.head? ≠ some (.string v)) :
    phraseAt? (.ofWord name :: .symbol '(' :: ts) = none := by
  rw [Token.ofWord]
  rcases ts with _ | ⟨t, ts⟩
  · rfl
  cases t with
  | word w | real x | integer n | symbol c => rfl
  | string v =>
      rw [phraseAt?, Option.map_eq_none_iff]
      by_contra hk
      obtain ⟨k, hk⟩ := Option.ne_none_iff_exists'.1 hk
      split at hk
      · cases hk
      · split at hk
        · cases hk
        · exact h k (ofText?_eq_some hk) v rfl

theorem Phrased.opened {name : String} {ts : List Token} {ps : List RosPhrase} (hne : ts ≠ [])
    (h : ∀ k : CallKind, name = k.text → ∀ v, ts.head? ≠ some (.string v)) (hts : Phrased ts ps) :
    Phrased (.ofWord name :: .symbol '(' :: ts) ps := by
  intro us hus
  have hhead : ∀ k : CallKind, name = k.text → ∀ v, (ts ++ us).head? ≠ some (.string v) := by
    intro k hk v
    rw [List.head?_append_of_ne_nil _ hne]
    exact h k hk v
  rw [List.cons_append, List.cons_append, phrasesIn, phraseAt?_call hhead, phrasesIn_symbol, hts us hus]
  rfl

theorem phraseAt?_ros (kind : CallKind) (topic : String) (ts : List Token) :
    phraseAt? (.ofWord kind.text :: .symbol '(' :: .string topic :: ts) = some ⟨kind, topic, upToClosing 0 ts⟩ := by
  cases kind <;> rfl

namespace Expr

theorem phrasesOf_eq_flatMap (es : List Expr) : phrasesOf es = es.flatMap phrases := by
  induction es with
  | nil => rfl
  | cons e es ih => rw [phrasesOf, ih, List.flatMap_cons]

theorem startsWithString_of_head? {args : List Expr} {v : String}
    (h : ((tokensAfter ',' args).drop 1 ++ [Token.symbol ')']).head? = some (.string v)) :
    startsWithString (trees args) = true := by
  rcases args with _ | ⟨⟨_ | _ | _ | _⟩ | _ | _ | _ | _, args⟩
  case cons.literal.string => rfl
  case cons.abstract => cases args <;> simp [tokensAfter, tokens] at h
  all_goals simp [tokensAfter, tokens, Literal.token, Token.ofWord] at h

variable {ok : LiteralTree → Prop}

mutual

/-- Where nothing is spelled like something else, the phrases in the spelling are the ROS calls. -/
theorem phrased_tokens : ∀ e : Expr, e.tree.ReadableWith ok → Phrased e.tokens e.phrases
  | literal (.string _) _, _ | literal (.integer _) _, _ | literal (.real _) _, _ => Phrased.nil.cons nofun
  | literal (.boolean b) _, _ => .word _
  | reference name _ _, _ => .word _
  | abstract, _ => .nil
  | call name args _ _, hr => by
      have hargs : Phrased ((tokensAfter ',' args).drop 1) (phrasesOf args) := by
        rw [tokensAfter_eq_flatMap, phrasesOf_eq_flatMap]
        exact .separated (by decide) (phrased_tokensOf args hr.2.2)
      refine .opened (by simp) (fun k hk v hv => ?_) hargs.closed
      exact Bool.false_ne_true ((hr.2.1 k hk).symm.trans (startsWithString_of_head? hv))
  | ros kind topic args _, hr => by
      have hargs : Phrased (tokensAfter ',' args) (phrasesOf args) := by
        rw [tokensAfter_eq_flatMap, phrasesOf_eq_flatMap]
        exact .flatMap (by decide) (phrased_tokensOf args hr)
      intro us hus
      rw [tokens, List.cons_append, List.cons_append, List.cons_append, phrasesIn, phraseAt?_ros,
        phrasesIn_symbol, phrasesIn_string, hargs.closed us hus, List.append_assoc, List.singleton_append,
        upToClosing_arguments]
      rfl

theorem phrased_tokensOf : ∀ es : List Expr, ExprTree.AllReadableWith ok (trees es) →
    ∀ e ∈ es, Phrased e.tokens e.phrases
  | [], _ => fun _ he => by cases he
  | e :: es, hr => List.forall_mem_cons.2 ⟨phrased_tokens e hr.1, phrased_tokensOf es hr.2⟩

end

theorem readable_of_within {e : Expr} {es : List Expr} (h : Within e es)
    (hr : ExprTree.AllReadableWith ok (trees es)) : e.tree.ReadableWith ok := by
  have hmem : ∀ {f : Expr} {fs : List Expr}, f ∈ fs → ExprTree.AllReadableWith ok (trees fs) →
      f.tree.ReadableWith ok := by
    intro f fs hf hfs
    rw [trees_eq_map, ExprTree.allReadableWith_iff] at hfs
    exact hfs f.tree (List.mem_map_of_mem hf)
  induction h with
  | here h => exact hmem h hr
  | call h _ ih => exact ih (hmem h hr).2.2
  | ros h _ ih => exact ih (hmem h hr)

end Expr

/-! ### Declarations -/

section Declarations

variable (s : Source)

def Grammar.Declaration.phrases : Declaration → List RosPhrase
  | .function _ _ _ body => Expr.phrasesOf (s.exprs body)
  | _ => []

theorem head?_parameters (ps : List ParameterTree) (v : String) (ts : List Token) :
    ((ps.flatMap fun p : ParameterTree => Token.symbol ',' :: p.tokens).drop 1 ++ .symbol ')' :: ts).head? ≠
      some (.string v) := by
  cases ps with
  | nil => exact nofun
  | cons p ps => exact nofun

theorem phrased_parameters (ps : List ParameterTree) :
    Phrased ((ps.flatMap fun p => .symbol ',' :: p.tokens).drop 1 ++ [.symbol ')']) [] := by
  have hnone : ps.flatMap (fun _ => ([] : List RosPhrase)) = [] := List.flatMap_eq_nil_iff.2 fun _ _ => rfl
  have hp : ∀ p ∈ ps, Phrased p.tokens [] := fun p _ =>
    .word_cons _ (.cons nofun (.word _)) nofun
  exact hnone ▸ (Phrased.separated (by decide) hp).closed

theorem phrased_body {ok : LiteralTree → Prop} (semicolon : Bool) {es : List Expr}
    (hr : ExprTree.AllReadableWith ok (Expr.trees es)) :
    Phrased (bodyTokens semicolon es) (Expr.phrasesOf es) := by
  have hes : Phrased ((Expr.tokensAfter ';' es).drop 1) (Expr.phrasesOf es) := by
    rw [Expr.tokensAfter_eq_flatMap, Expr.phrasesOf_eq_flatMap]
    exact .separated (by decide) (Expr.phrased_tokensOf es hr)
  have hend : Phrased ((if semicolon then [.symbol ';'] else []) ++ [.symbol '\x7d']) [] := by
    cases semicolon
    · exact .cons nofun .nil
    · exact .cons nofun (.cons nofun .nil)
  refine .cons nofun ?_
  have hall := hes.append hend (by cases semicolon <;> exact nofun)
  rwa [List.append_nil] at hall

theorem phrased_declaration {d : Declaration} (hd : d.IsProper) (hl : Source.declaredLongNumerals d = [])
    (semicolon : Bool) : Phrased (d.tokens s semicolon) (d.phrases s) := by
  cases d with
  | includes file => exact .word_cons _ (.cons nofun .nil) nofun
  | robot mark name => exact .word_cons _ (.word _) nofun
  | type mark name => exact .word_cons _ (.word _) nofun
  | function mark name ps body =>
      have hbody := phrased_body semicolon (s.readable_exprs body (ExprTree.allReadableWith_iff.2 hd.2.2) hl)
      have hrest := (phrased_parameters ps).append hbody nofun
      refine .word_cons _ (.opened (by simp) (fun _ _ v hv => ?_) hrest) nofun
      change List.head? ((_ ++ _) ++ _) = _ at hv
      rw [List.append_assoc] at hv
      exact head?_parameters ps v _ hv
  | method mark name ps =>
      exact .word_cons _ (.opened (by simp) (fun _ _ v => head?_parameters ps v []) (phrased_parameters ps)) nofun

theorem phrased_rows {ds : List Declaration} {rows : List (List Token)}
    (h : List.Forall₂ (fun d ts => ∃ semicolon, ts = d.tokens s semicolon) ds rows)
    (hd : ∀ d ∈ ds, d.IsProper) (hl : ds.flatMap Source.declaredLongNumerals = []) :
    Phrased rows.flatten (ds.flatMap (Declaration.phrases s)) := by
  induction h with
  | nil => exact .nil
  | @cons d ts ds rows hts hrows ih =>
      obtain ⟨semicolon, rfl⟩ := hts
      rw [List.flatMap_cons, List.append_eq_nil_iff] at hl
      obtain ⟨hproper, hds⟩ := List.forall_mem_cons.1 hd
      refine (phrased_declaration s hproper hl.1 semicolon).append (ih hds hl.2) ?_
      -- Every declaration begins with a word.
      cases hrows with
      | nil => exact nofun
      | @cons d' ts' _ _ hts' =>
          obtain ⟨semicolon', rfl⟩ := hts'
          cases d' <;> exact nofun

theorem phrases_add (m : Model) (d : Declaration) :
    ((m.add s d).functions.flatMap fun f => Expr.phrasesOf f.body) =
      (m.functions.flatMap fun f => Expr.phrasesOf f.body) ++ d.phrases s := by
  cases d with
  | function mark name ps body =>
      simp [Model.add, Model.addFunction, Declaration.phrases]
  | includes file | robot mark name | type mark name | method mark name ps => exact (List.append_nil _).symm

theorem phrases_addAll (ds : List Declaration) (m : Model) :
    ((ds.foldl (Model.add s) m).functions.flatMap fun f => Expr.phrasesOf f.body) =
      (m.functions.flatMap fun f => Expr.phrasesOf f.body) ++ ds.flatMap (Declaration.phrases s) := by
  induction ds generalizing m with
  | nil => exact (List.append_nil _).symm
  | cons d ds ih => rw [List.foldl_cons, ih, phrases_add, List.flatMap_cons, List.append_assoc]

end Declarations

/-! ### Programs -/

namespace Model

variable {m n : Model} {imported after : Imported}

theorem phrasesIn_of_model {s : Source} (h : s.model imported = .ok m) :
    phrasesIn (tokensIn s.text) = m.functions.flatMap fun f => Expr.phrasesOf f.body := by
  obtain ⟨ds, hds, rfl⟩ := Source.model_eq_ok_iff.1 h
  obtain ⟨⟨r, hrun⟩, -, hlong⟩ := Source.program_eq_ok_iff.1 hds
  obtain ⟨rows, hrows, htokens⟩ := tokensIn_of_run_program s hrun
  have hphrased := phrased_rows s hrows (isProper_of_run_program hrun) hlong [] nofun
  rw [List.append_nil, ← htokens] at hphrased
  rw [hphrased, phrases_addAll]
  exact List.append_nil _

theorem rosCalls_of_runAll_check (hm : m.IsNumbered) (h : Stage.runAll Stage.check m = (n, none)) :
    n.rosCalls = m.rosCalls.insertAll m.bodyCalls := by
  obtain ⟨-, l, hp, he⟩ := stages_of_runAll_check h
  have hcalls := l.resolveExpressions_rosCalls
  have hbodies := bodyCalls_resolveParameters hm
  have hrest := untyped_resolveParameters hm
  rw [he] at hcalls
  rw [hp] at hbodies hrest
  have hsame : l.untyped.rosCalls = m.untyped.rosCalls := congrArg Model.rosCalls hrest
  have hall := hcalls.trans (congrArg (l.rosCalls.insertAll ·) hbodies)
  rwa [show l.rosCalls = m.rosCalls from hsame] at hall

theorem mem_rosCalls_of_buildText {t : Files.Tree} {base text : String} (hi : Reachable (.besides imported))
    (h : buildText t base text imported = (.ok n, after)) {m : Model}
    (hm : (Source.mk none text.toList).model imported = .ok m) (c : RosCall) :
    c ∈ n.rosCalls ↔ c ∈ m.bodyCalls := by
  obtain ⟨l, hparse, hrun⟩ := checked_eq_ok_iff.1 h
  obtain ⟨k, hk, hload, -⟩ := parseSource_eq_ok_iff.1 hparse
  obtain rfl := Except.ok.inj (hm.symm.trans hk)
  have hbodies : l.bodyCalls = m.bodyCalls := by
    rw [eq_of_loadIncludes hload]
    rfl
  have hnone : l.rosCalls = .empty := by
    obtain ⟨ds, -, rfl⟩ := Source.model_eq_ok_iff.1 hm
    rw [eq_of_loadIncludes hload]
    exact add_rosCalls _ ds _
  have hempty : c ∉ CallRegistry.empty := List.not_mem_nil
  rw [rosCalls_of_runAll_check (hi.parseText hparse).isNumbered hrun, CallRegistry.mem_insertAll, hnone, hbodies]
  exact ⟨fun hc => hc.resolve_left hempty, .inr⟩

/-- No call with the name of a kind of ROS call has a string as its first argument: every such phrase of the
text is a ROS call of that kind, with that string as its topic and what follows as its arguments. So the
registry of a built model has the topic and the kind of each of them, and nothing else. -/
theorem ros_phrases_are_ros_calls {file : Option String} {text : String}
    (h : (Source.mk file text.toList).model imported = .ok m) :
    (∀ f ∈ m.functions, ∀ (k : CallKind) (v : String) (place : Option Position) (args : List Expr)
        (target : Option Target) (position : Option Position),
      ¬ Expr.Within (.call k.text (.literal (.string v) place :: args) target position) f.body) ∧
    phrasesIn (tokensIn text.toList) = (m.functions.flatMap fun f => Expr.phrasesOf f.body) ∧
    ∀ (t : Files.Tree) (base : String) (imported' after : Imported) (n : Model),
      Reachable (.besides imported') → buildText t base text imported' = (.ok n, after) →
      ∀ c, c ∈ n.rosCalls ↔ ∃ p ∈ phrasesIn (tokensIn text.toList), p.call = c := by
  refine ⟨fun f hf k v place args target position hw => ?_, phrasesIn_of_model h, ?_⟩
  · have hreadable := Expr.readable_of_within hw ((Source.isRead_of_model h).functions f hf).readable
    exact Bool.false_ne_true (hreadable.2.1 k rfl).symm
  · intro t base imported' after n hi hbuild c
    obtain ⟨l, hparse, -⟩ := checked_eq_ok_iff.1 hbuild
    obtain ⟨k, hk, -⟩ := parseSource_eq_ok_iff.1 hparse
    have hphrases : phrasesIn (tokensIn text.toList) = _ := phrasesIn_of_model hk
    have hcalls : k.bodyCalls = (phrasesIn (tokensIn text.toList)).map RosPhrase.call := by
      rw [hphrases, List.map_flatMap, bodyCalls]
      exact List.flatMap_congr fun f _ => (Expr.map_call_phrasesOf f.body).symm
    rw [mem_rosCalls_of_buildText hi hbuild hk, hcalls, List.mem_map]

theorem ros_phrases_are_ros_calls_publish :
    let text := "fn publish(x: bool) \x7b publish('a', service(\"b\"), publish(x)) \x7d // publish('c')\n" ++
      "method service(x: bool) fn f() \x7b service(\"publish('d')\"); f(publish ( 'a' )) \x7d"
    let phrases : List RosPhrase :=
      [⟨.publish, "a", [.symbol ',', .word "service", .symbol '(', .string "b", .symbol ')', .symbol ',',
          .word "publish", .symbol '(', .word "x", .symbol ')']⟩,
        ⟨.service, "b", []⟩, ⟨.service, "publish('d')", []⟩, ⟨.publish, "a", []⟩]
    phrasesIn (tokensIn text.toList) = phrases ∧
      ∃ n after, buildText ⟨.root, []⟩ "" text .empty = (.ok n, after) ∧
        ∀ c, c ∈ n.rosCalls ↔ c ∈ phrases.map RosPhrase.call := by
  intro text phrases
  let t : Files.Tree := ⟨.root, []⟩
  obtain ⟨m, hm, hbodies, hload, hrun⟩ : ∃ m, (Source.mk none text.toList).model .empty = .ok m ∧
      (m.functions.flatMap fun f => Expr.phrasesOf f.body) = phrases ∧ (m.loadIncludes t "").2 = none ∧
        (Stage.runAll Stage.check (m.loadIncludes t "").1).2 = none :=
    exists_ok_of_any (by decide +kernel)
  have hparse := parseSource_eq_ok_iff.2 ⟨m, hm, Prod.ext rfl hload, rfl⟩
  have hbuild := checked_eq_ok_iff.2 ⟨_, hparse, Prod.ext rfl hrun⟩
  obtain ⟨-, hphrases, hregistered⟩ := ros_phrases_are_ros_calls hm
  rw [hbodies] at hphrases
  refine ⟨hphrases, _, _, hbuild, fun c => ?_⟩
  rw [hregistered _ _ _ _ _ .empty hbuild c, hphrases, List.mem_map]

end Model

end RobotLang
