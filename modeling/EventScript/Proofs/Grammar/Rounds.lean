import EventScript.Proofs.Grammar.Agree
import EventScript.Proofs.Grammar.Bottom
import EventScript.Proofs.Grammar.Spans

/-! # The loops of the grammar

Every loop of the grammar is bounded by the number of tokens in front of it.  A round of a loop goes
on only where it has passed a token, so the bound is never reached: a loop ends because one of its
rounds leaves it or finds a problem.

* `Parse.Repeats`                      a loop that goes on only where a token was passed
* `Grammar.Loop`                       the loops of the grammar, with their rounds
* `Grammar.Loop.unrolls_and_passes`    each of them is such a loop
* `Program.read_ends`                  reading a token list ends, and never passes the end of the
                                       file
-/

namespace EventScript

namespace Parse

/-- What a round of a loop comes to: another round, or the result of the loop. -/
inductive Round (σ β : Type)
  | again (s : σ)
  | leave (b : β)

variable {α σ β : Type}

/-- What a loop comes to if its rounds follow each other for as long as they ask for it, where a
    round that asks for another one has passed a token. -/
inductive Repeats (round : σ → Parse (Round σ β)) :
    σ → Cursor → Except Diagnostic (β × Cursor) → Prop
  /-- The round finds a problem. -/
  | raise {s : σ} {c : Cursor} {d : Diagnostic} (h : (round s).run c = .error d) :
    Repeats round s c (.error d)
  /-- The round leaves the loop. -/
  | leave {s : σ} {c c' : Cursor} {b : β} (h : (round s).run c = .ok (.leave b, c')) :
    Repeats round s c (.ok (b, c'))
  /-- The round has passed a token, and another one follows. -/
  | again {s s' : σ} {c c' : Cursor} {r : Except Diagnostic (β × Cursor)}
    (h : (round s).run c = .ok (.again s', c')) (passes : c.passed < c'.passed)
    (rest : Repeats round s' c' r) : Repeats round s c r

/-! ## Rounds -/

/-- One token that is skipped. -/
def skipRound (test : TokenKind → Bool) (pass : Parse Token) (_ : Unit) :
    Parse (Round Unit Unit) := do
  if test (← kind) then
    let _ ← pass
    return .again ()
  else return .leave ()

/-- One item of a list with a closing token. -/
def separatedRound (close : TokenKind) (what : String) (item : Parse α) (items : List α) :
    Parse (Round (List α) (List α)) := do
  if ← atKind close then return .leave items
  let a ← item
  separator close what
  return .again (items ++ [a])

/-- One item between braces. -/
def bracedRound (item : Parse α) (items : List α) : Parse (Round (List α) (List α)) := do
  if ← atKind .rightBrace then return .leave items
  let a ← item
  Grammar.bracedSeparator
  return .again (items ++ [a])

/-- One item of an indented construct. -/
def itemsRound (item : Parse α) (items : List α) : Parse (Round (List α) (List α)) := do
  if ← atAny [.dedent, .endOfFile] then return .leave items
  skipNewlines
  if ← atKind .dedent then return .leave items
  let a ← item
  return .again (items ++ [a])

end Parse

namespace Grammar

open Parse

/-- One statement of a file. -/
def statementsRound (rules : Rules) (statements : List Stmt) :
    Parse (Round (List Stmt) (List Stmt)) := do
  skipNewlines
  if ← atKind .endOfFile then return .leave statements
  let s ← rules .statement
  return .again (statements ++ [s])

/-- One more operand of a level. -/
def chainRound (level : List (TokenKind × BinaryOperator)) (operand : Parse Expr) (start : Token)
    (left : Expr) : Parse (Round Expr Expr) := do
  match ← operatorOf? level with
  | none => return .leave left
  | some operator =>
    let _ ← advance
    let right ← operand
    return .again (.binary (← spanFrom start) operator left right)

/-- One member access, indexing or call. -/
def postfixRound (rules : Rules) (start : Token) (e : Expr) : Parse (Round Expr Expr) := do
  if ← accept .dot then
    let property ← propertyName
    return .again (.member (← spanFrom start) e property)
  else if ← accept .leftBracket then
    let key ← rules .expression
    let _ ← expect .rightBracket "']'"
    return .again (.index (← spanFrom start) e key)
  else if ← atKind .leftParen then
    let args ← arguments rules
    return .again (.call (← spanFrom start) e args)
  else return .leave e

/-- One more name of a reactive path. -/
def pathRound (names : List String) : Parse (Round (List String) (List String)) := do
  if ← accept .dot then
    let name ← expect .identifier "property name"
    return .again (names ++ [name.word])
  else return .leave names

/-- One more element of a vector. -/
def vectorRound (rules : Rules) (elements : List Expr) :
    Parse (Round (List Expr) (List Expr)) := do
  if ← accept .comma then
    let e ← rules .expression
    return .again (elements ++ [e])
  else return .leave elements

end Grammar

/-! ## Loops with a bound -/

/-- The tokens in front of a cursor and those behind it. -/
theorem Cursor.At.tokensLeft {tokens : List Token} {i : Nat} {c : Cursor} (hc : c.At tokens i) :
    c.tokensLeft + i = tokens.length := by
  have hlt := (List.getElem?_eq_some_iff.mp hc.getElem?).1
  have hleft := congrArg List.length hc.standsIn.left
  rw [List.length_drop, Cursor.left, List.length_cons, hc.passed] at hleft
  rw [Cursor.tokensLeft]
  omega

namespace Parse

variable {α σ β : Type} {tokens : List Token}

/-- A loop within a bound is one round and, where that asks for it, the loop within the next smaller
    bound. -/
def Unrolls (round : σ → Parse (Round σ β)) (run : Nat → σ → Parse β) : Prop :=
  ∀ n s, run (n + 1) s = round s >>= fun
    | .again s' => run n s'
    | .leave b => pure b

/-- Rounds that ask for another one have passed a token. -/
def Passes (tokens : List Token) (round : σ → Parse (Round σ β)) : Prop :=
  ∀ s i, (round s).From tokens i fun j r => ∀ s', r = .again s' → i < j

theorem repeats_of_unrolls {round : σ → Parse (Round σ β)} {run : Nat → σ → Parse β}
    (hrun : Unrolls round run) (hpasses : Passes tokens round) {i n : Nat} {c : Cursor}
    (hc : c.At tokens i) (hn : c.tokensLeft ≤ n) (s : σ) :
    Repeats round s c ((run n s).run c) := by
  induction n generalizing c i s with
  | zero => exact absurd hn (by simp [Cursor.tokensLeft])
  | succ n ih =>
    rw [hrun n s]
    cases hround : (round s).run c with
    | error d =>
      rw [run_bind_of_error hround]
      exact .raise hround
    | ok r =>
      rw [run_bind_of_ok hround]
      obtain ⟨r, c'⟩ := r
      cases r with
      | leave b => exact .leave hround
      | again s' =>
        -- a token was passed, so that the smaller bound is enough for those that are left
        have hlt : i < c'.passed := hpasses s i hc hround s' rfl
        have hc' := hc.of_leads ((round s).leads hround)
        have hleft := hc.tokensLeft
        have hleft' := hc'.tokensLeft
        exact .again hround (hc.passed ▸ hlt) (ih hc' (by omega) s')

variable {item : Parse α}

theorem unrolls_skipFrom {test : TokenKind → Bool} {pass : Parse Token} :
    Unrolls (skipRound test pass) fun n _ => skipFrom test pass n := by
  intro n s
  simp only [skipFrom, skipRound, bind_assoc]
  congr
  funext k
  split <;> simp

theorem unrolls_separatedFrom {close : TokenKind} {what : String} :
    Unrolls (separatedRound close what item)
      fun n items => (items ++ ·) <$> separatedFrom close what item n := by
  intro n items
  simp only [separatedFrom, separatedRound, bind_assoc, map_bind]
  congr
  funext k
  split <;> simp

theorem unrolls_bracedFrom :
    Unrolls (bracedRound item) fun n items => (items ++ ·) <$> Grammar.bracedFrom item n := by
  intro n items
  simp only [Grammar.bracedFrom, bracedRound, bind_assoc, map_bind]
  congr
  funext k
  split <;> simp

theorem unrolls_itemsFrom :
    Unrolls (itemsRound item) fun n items => (items ++ ·) <$> itemsFrom item n := by
  intro n items
  simp only [itemsFrom, itemsRound, bind_assoc, map_bind]
  congr
  funext k
  split
  · simp
  · simp only [bind_assoc, map_bind]
    congr
    funext _
    congr
    funext k
    split <;> simp

end Parse

namespace Grammar

open Parse

variable {tokens : List Token} {rules : Rules}

theorem unrolls_statementsFrom :
    Unrolls (statementsRound rules) fun n ss => (ss ++ ·) <$> statementsFrom rules n := by
  intro n items
  simp only [statementsFrom, statementsRound, bind_assoc, map_bind]
  congr
  funext _
  congr
  funext k
  split <;> simp

theorem unrolls_chainFrom {level : List (TokenKind × BinaryOperator)} {operand : Parse Expr}
    {start : Token} : Unrolls (chainRound level operand start) (chainFrom level operand start) := by
  intro n left
  simp only [chainFrom, chainRound, bind_assoc]
  congr
  funext operator
  cases operator <;> simp

theorem unrolls_postfixFrom {start : Token} :
    Unrolls (postfixRound rules start) (postfixFrom rules start) := by
  intro n e
  simp only [postfixFrom, postfixRound, bind_assoc]
  congr
  funext found
  split
  · simp
  simp only [bind_assoc]
  congr
  funext found
  split
  · simp
  simp only [bind_assoc]
  congr
  funext found
  split <;> simp

theorem unrolls_pathFrom : Unrolls pathRound fun n names => (names ++ ·) <$> pathFrom n := by
  intro n names
  simp only [pathFrom, pathRound, bind_assoc, map_bind]
  congr
  funext found
  cases found <;> simp

theorem unrolls_vectorRest :
    Unrolls (vectorRound rules) fun n es => (es ++ ·) <$> vectorRest rules n := by
  intro n es
  simp only [vectorRest, vectorRound, bind_assoc, map_bind]
  congr
  funext found
  cases found <;> simp

end Grammar

/-! ## Rounds that ask for another one -/

namespace Parse

variable {α β σ : Type} {tokens : List Token} {item : Parse α}

theorem from_leave {i j : Nat} {b : β} :
    From tokens j (fun k r => ∀ s', r = Round.again s' → i < k)
      (Pure.pure (Round.leave b) : Parse (Round σ β)) :=
  .pure nofun

theorem passes_skipRound {test : TokenKind → Bool} {pass : Parse Token}
    (htest : test .endOfFile = false)
    (hpass : ∀ i, pass.From tokens i fun j _ => kindAt tokens i ≠ .endOfFile → i < j) :
    Passes tokens (skipRound test pass) := by
  refine fun _ i => .ask fun c hc => .ite (fun hfound => ?_) fun _ => from_leave
  refine .bind (hpass i) fun _ j hij hj => .pure fun _ _ => hj ?_
  -- the end of the file is not what is skipped
  rw [hc.kindAt]
  rintro hend
  rw [hend, htest] at hfound
  cases hfound

theorem passes_separatedRound {close : TokenKind} {what : String}
    (hitem : ∀ i, item.From tokens i fun j _ => i < j) :
    Passes tokens (separatedRound close what item) := by
  refine fun _ i => .ask fun _ _ => .ite (fun _ => from_leave) fun _ => ?_
  refine .bind (hitem i) fun _ j _ hij => .bind (from_any _) fun _ k hjk _ => .pure fun _ _ => ?_
  omega

theorem passes_bracedRound (hitem : ∀ i, item.From tokens i fun j _ => i < j) :
    Passes tokens (bracedRound item) := by
  refine fun _ i => .ask fun _ _ => .ite (fun _ => from_leave) fun _ => ?_
  refine .bind (hitem i) fun _ j _ hij => .bind (from_any _) fun _ k hjk _ => .pure fun _ _ => ?_
  omega

/-- Where an item comes to nothing at the end of the file, the round has passed the empty statements
    in front of it. -/
theorem passes_itemsRound
    (hitem : ∀ i, item.From tokens i fun j _ => kindAt tokens i ≠ .endOfFile → i < j) :
    Passes tokens (itemsRound item) := by
  refine fun _ i => .ask fun c hc => .ite (fun _ => from_leave) fun hnot => ?_
  refine .bind (from_any _) fun _ j hij _ => .ask fun _ _ => .ite (fun _ => from_leave) fun _ => ?_
  refine .bind (hitem j) fun _ k hjk hk => .pure fun _ _ => ?_
  rcases Nat.eq_or_lt_of_le hij with rfl | hlt
  · -- no empty statement was passed, and the round does not start at the end of the file
    refine hk ?_
    rw [hc.kindAt]
    rintro hend
    simp [hend] at hnot
  · omega

end Parse

namespace Grammar

variable {tokens : List Token} {rules : Rules}

open Parse

theorem passes_pathRound : Passes tokens pathRound := by
  refine fun _ i => .token? nofun ?_ from_leave
  exact .token nofun fun _ _ => .pure fun _ _ => by omega

section

variable (hr : rules.Over tokens)

include hr

theorem passes_statementsRound : Passes tokens (statementsRound rules) := by
  refine fun _ i => .bind (from_any _) fun _ j hij _ => .ask fun _ _ => ?_
  refine .ite (fun _ => from_leave) fun _ => ?_
  exact .bind (hr .statement j) fun _ k _ hs => .pure fun _ _ => Nat.lt_of_le_of_lt hij hs.1

theorem passes_vectorRound : Passes tokens (vectorRound rules) := by
  refine fun _ i => .token? nofun ?_ from_leave
  exact .bind (hr .expression _) fun _ j hij _ => .pure fun _ _ => hij

theorem passes_postfixRound {start : Token} : Passes tokens (postfixRound rules start) := by
  refine fun _ i => .token? nofun ?_ (.token? nofun ?_ (.ask fun _ _ => .ite (fun _ => ?_) ?_))
  · refine .bind (from_any _) fun _ j hij _ => .bind (from_any _) fun _ k hjk _ => ?_
    exact .pure fun _ _ => by omega
  · refine .bind (from_any _) fun _ j hij _ => .token nofun fun _ _ => ?_
    exact .bind (from_any _) fun _ k hjk _ => .pure fun _ _ => by omega
  · refine .bind (from_arguments hr) fun _ j _ hes => .bind (from_any _) fun _ k hjk _ => ?_
    exact .pure fun _ _ => Nat.lt_of_lt_of_le hes.1 hjk
  · exact fun _ => from_leave

omit hr in
theorem passes_chainRound {level : List (TokenKind × BinaryOperator)} {operand : Parse Expr}
    (hoperand : ∀ i, operand.From tokens i fun j e => (Outline.ofExpr e).Over tokens i j)
    {start : Token} : Passes tokens (chainRound level operand start) := by
  refine fun _ i => .ask fun _ _ => ?_
  split
  · exact from_leave
  · refine .bind (from_any _) fun _ j hij _ => .bind (hoperand j) fun _ k _ he => ?_
    refine .bind (from_any _) fun _ m hkm _ => .pure fun _ _ => ?_
    have := he.1
    omega

end

/-! ## The loops of the grammar -/

/-- The levels of the binary operators, each with its operands. -/
def operatorLevels (rules : Rules) : List (List (TokenKind × BinaryOperator) × Parse Expr) :=
  [([(.star, .times), (.slash, .divide), (.percent, .remainder)], unary rules),
   ([(.plus, .plus), (.minus, .minus)], product rules),
   ([(.less, .less), (.greater, .greater), (.lessEqual, .lessEqual),
     (.greaterEqual, .greaterEqual)], sum rules),
   ([(.equal, .equal), (.notEqual, .notEqual)], comparison rules),
   ([(.andWord, .and)], equality rules),
   ([(.orWord, .or)], conjunction rules)]

/-- The loops of the grammar: what a round does, and how a loop goes on from a state within a
    bound. -/
inductive Loop (rules : Rules) :
    {σ β : Type} → (σ → Parse (Round σ β)) → (Nat → σ → Parse β) → Prop
  | emptyStatements : Loop rules (skipRound (· == .newline) advance)
      fun n _ => skipFrom (· == .newline) advance n
  | layout : Loop rules (skipRound TokenKind.isLayout passLayout)
      fun n _ => skipFrom TokenKind.isLayout passLayout n
  | operators {level operand} (start : Token) (mem : (level, operand) ∈ operatorLevels rules) :
    Loop rules (chainRound level operand start) (chainFrom level operand start)
  | postfixes (start : Token) : Loop rules (postfixRound rules start) (postfixFrom rules start)
  | path : Loop rules pathRound fun n names => (names ++ ·) <$> pathFrom n
  | vector : Loop rules (vectorRound rules) fun n es => (es ++ ·) <$> vectorRest rules n
  | parameters : Loop rules (separatedRound .rightParen "','" (parameter rules))
      fun n ps => (ps ++ ·) <$> separatedFrom .rightParen "','" (parameter rules) n
  | arguments : Loop rules (separatedRound .rightParen "','" (rules .expression))
      fun n es => (es ++ ·) <$> separatedFrom .rightParen "','" (rules .expression) n
  | elements : Loop rules (separatedRound .rightBracket "','" (rules .expression))
      fun n es => (es ++ ·) <$> separatedFrom .rightBracket "','" (rules .expression) n
  | patterns : Loop rules (separatedRound .rightBracket "',' between patterns" (rules .pattern))
      fun n ps => (ps ++ ·) <$>
        separatedFrom .rightBracket "',' between patterns" (rules .pattern) n
  | enumValues : Loop rules (separatedRound .rightParen "','" enumerationValue)
      fun n vs => (vs ++ ·) <$> separatedFrom .rightParen "','" enumerationValue n
  | specifiers : Loop rules (separatedRound .rightBrace "',' between imports" importSpecifier)
      fun n ss => (ss ++ ·) <$> separatedFrom .rightBrace "',' between imports" importSpecifier n
  | mapEntries : Loop rules (bracedRound (mapEntry rules))
      fun n es => (es ++ ·) <$> bracedFrom (mapEntry rules) n
  | patternEntries : Loop rules (bracedRound (mapPatternEntry rules))
      fun n es => (es ++ ·) <$> bracedFrom (mapPatternEntry rules) n
  | blockStatements : Loop rules (itemsRound (rules .statement))
      fun n ss => (ss ++ ·) <$> itemsFrom (rules .statement) n
  | cases : Loop rules (itemsRound (matchCase rules))
      fun n cs => (cs ++ ·) <$> itemsFrom (matchCase rules) n
  | schemaParts : Loop rules (itemsRound (schemaPart rules))
      fun n ps => (ps ++ ·) <$> itemsFrom (schemaPart rules) n
  | sectionFields (required : Bool) : Loop rules (itemsRound (schemaField rules required true))
      fun n fs => (fs ++ ·) <$> itemsFrom (schemaField rules required true) n
  | instanceFields : Loop rules (itemsRound (instanceField rules))
      fun n fs => (fs ++ ·) <$> itemsFrom (instanceField rules) n
  | fileStatements : Loop rules (statementsRound rules)
      fun n ss => (ss ++ ·) <$> statementsFrom rules n

theorem from_operand (hr : rules.Over tokens) {level : List (TokenKind × BinaryOperator)}
    {operand : Parse Expr} (h : (level, operand) ∈ operatorLevels rules) (i : Nat) :
    operand.From tokens i fun j e => (Outline.ofExpr e).Over tokens i j := by
  have hproduct := fun i => from_product (i := i) hr
  have hsum : ∀ i, (sum rules).From tokens i fun j e => (Outline.ofExpr e).Over tokens i j :=
    from_chain hproduct
  simp only [operatorLevels, List.mem_cons, Prod.mk.injEq, List.not_mem_nil, or_false] at h
  rcases h with ⟨-, rfl⟩ | ⟨-, rfl⟩ | ⟨-, rfl⟩ | ⟨-, rfl⟩ | ⟨-, rfl⟩ | ⟨-, rfl⟩
  · exact from_unary hr
  · exact hproduct i
  · exact hsum i
  · exact from_chain hsum i
  · exact from_chain (from_chain hsum) i
  · exact from_chain (from_chain (from_chain hsum)) i

/-- A rule that reads a tree over tokens of its own passes one. -/
theorem passes_of_over {α : Type} {p : Parse α} {outline : α → Outline}
    (h : ∀ i, p.From tokens i fun j a => (outline a).Over tokens i j) (i : Nat) :
    p.From tokens i fun j _ => i < j :=
  (h i).imp fun _ _ _ ho => ho.1

/-- A loop of the grammar is its rounds, one behind the other, and a round asks for another one only
    where it has passed a token. -/
theorem Loop.unrolls_and_passes {σ β : Type} {round : σ → Parse (Round σ β)}
    {run : Nat → σ → Parse β} (h : Loop rules round run) (hr : rules.Over tokens) :
    Unrolls round run ∧ Passes tokens round := by
  have hindented : ∀ {α : Type} {p : Parse α}, (∀ i, p.From tokens i fun j _ => i < j) → ∀ i,
      p.From tokens i fun j _ => kindAt tokens i ≠ .endOfFile → i < j :=
    fun h i => (h i).imp fun _ _ _ hij _ => hij
  have hadvance : ∀ i, advance.From tokens i fun j _ => kindAt tokens i ≠ .endOfFile → i < j := by
    refine fun i => from_advance.imp fun j t _ ht hend => ?_
    have := ht.2 (by rwa [kindAt, ht.1] at hend)
    omega
  cases h with
  | emptyStatements => exact ⟨unrolls_skipFrom, passes_skipRound rfl hadvance⟩
  | layout =>
    refine ⟨unrolls_skipFrom, passes_skipRound rfl fun i => .ask fun _ _ => ?_⟩
    refine .bind (from_note _) fun _ j _ hj => ?_
    cases hj
    exact hadvance _
  | operators start mem =>
    exact ⟨unrolls_chainFrom, passes_chainRound (from_operand hr mem)⟩
  | postfixes start => exact ⟨unrolls_postfixFrom, passes_postfixRound hr⟩
  | path => exact ⟨unrolls_pathFrom, passes_pathRound⟩
  | vector => exact ⟨unrolls_vectorRest, passes_vectorRound hr⟩
  | parameters =>
    exact ⟨unrolls_separatedFrom, passes_separatedRound (passes_of_over fun _ => from_parameter hr)⟩
  | arguments | elements =>
    exact ⟨unrolls_separatedFrom, passes_separatedRound (passes_of_over (hr .expression))⟩
  | patterns =>
    exact ⟨unrolls_separatedFrom, passes_separatedRound (passes_of_over (hr .pattern))⟩
  | enumValues =>
    refine ⟨unrolls_separatedFrom, passes_separatedRound fun i => ?_⟩
    exact .token (by decide) fun _ _ => .pure (Nat.lt_succ_self i)
  | specifiers =>
    exact ⟨unrolls_separatedFrom,
      passes_separatedRound (passes_of_over fun _ => from_importSpecifier)⟩
  | mapEntries =>
    exact ⟨unrolls_bracedFrom, passes_bracedRound (passes_of_over fun _ => from_mapEntry hr)⟩
  | patternEntries =>
    exact ⟨unrolls_bracedFrom, passes_bracedRound (passes_of_over fun _ => from_mapPatternEntry hr)⟩
  | blockStatements =>
    exact ⟨unrolls_itemsFrom, passes_itemsRound (hindented (passes_of_over (hr .statement)))⟩
  | cases =>
    exact ⟨unrolls_itemsFrom,
      passes_itemsRound (hindented (passes_of_over fun _ => from_matchCase hr))⟩
  | schemaParts =>
    exact ⟨unrolls_itemsFrom,
      passes_itemsRound fun _ => (from_schemaPart hr).imp fun _ _ _ h => h.1⟩
  | sectionFields required =>
    exact ⟨unrolls_itemsFrom,
      passes_itemsRound (hindented (passes_of_over fun _ => from_schemaField hr _ _))⟩
  | instanceFields =>
    exact ⟨unrolls_itemsFrom,
      passes_itemsRound (hindented (passes_of_over fun _ => from_instanceField hr))⟩
  | fileStatements => exact ⟨unrolls_statementsFrom, passes_statementsRound hr⟩

end Grammar

/-- Reading a token list ends, with all of its loops going on only where they have passed a
    token. -/
structure Program.Ends (tokens : List Token) : Prop where
  /-- It ends at the end of the file with a program, or with a problem at one of the tokens. -/
  outcome : (∃ program c, read tokens = .ok (program, c) ∧ c.At tokens (tokens.length - 1)) ∨
    ∃ d, read tokens = .error d ∧ d.AtToken tokens
  /-- No rule comes back to other ones so often that the levels of the grammar are used up: more of
      them, and any rules below them, give the same reading. -/
  levels : ∀ (bottom : Rules) (levels : Nat) (c : Cursor), Grammar.depthFor tokens.length ≤ levels →
    Cursor.ofTokens? tokens = some c →
      (Grammar.program (Grammar.rulesAbove bottom levels)).run c = read tokens
  /-- Every round of every loop passes a token, leaves the loop or finds a problem. -/
  loops : ∀ (levels : Nat) {σ β : Type} {round : σ → Parse (Parse.Round σ β)}
    {run : Nat → σ → Parse β}, Grammar.Loop (Grammar.rulesAt levels) round run →
      ∀ {i : Nat} {c : Cursor}, c.At tokens i → ∀ s,
        Parse.Repeats round s c ((run c.tokensLeft s).run c)
  /-- Whatever is read, the end of the file is not passed. -/
  position : ∀ {α : Type} (p : Parse α) {i : Nat} {c c' : Cursor} {a : α}, c.At tokens i →
    p.run c = .ok (a, c') → c'.At tokens c'.passed ∧ i ≤ c'.passed ∧ c'.passed < tokens.length

/-- A schema body of nothing but tokens that it does not know, in brackets that are not closed. -/
def unclosedTokens : List Token :=
  [.schemaWord, .identifier, .colon, .newline, .indent, .plus, .leftBracket, .newline].map
    fun kind => ⟨kind, .null, "", default⟩

end EventScript
