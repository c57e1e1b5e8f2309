import PolicyReview.Proofs.Rego.Language
import PolicyReview.Proofs.Rego.Lexeme
import PolicyReview.Proofs.Target.BoundSet

/-! Preambles as modules. Whatever name, bound constraints and tests it is rendered with, a preamble is
read as a module of four rules, and the conditions of the guard among them are the tests. -/

namespace PolicyReview.Rego

/-- What lies on a path of names from the input. -/
def Expr.ofNames (names : List String) : Expr :=
  names.foldl (fun base name => base.extend (.ofText name)) (.name "input")

namespace Test

/-- The tokens of the names of a path, each after a point. -/
def pathTokens (path : List String) : List Placed :=
  path.flatMap fun name => [⟨.nothing, .mark .dot⟩, ⟨.nothing, .word name⟩]

/-- The tokens of the condition, the first of them on a new line. -/
def tokens (test : Test) : List Placed :=
  ⟨.lineBreak, .word test.kind.test⟩ :: ⟨.nothing, .mark .openParen⟩ :: ⟨.nothing, .word "input"⟩ ::
    (pathTokens test.path ++ [⟨.nothing, .mark .closeParen⟩])

theorem tokens_append (test : Test) (rest : List Placed) : test.tokens ++ rest =
    ⟨.lineBreak, .word test.kind.test⟩ :: ⟨.nothing, .mark .openParen⟩ ::
      ⟨.nothing, .word "input"⟩ ::
        (pathTokens test.path ++ ⟨.nothing, .mark .closeParen⟩ :: rest) := by
  simp [tokens]

theorem length_tokens (test : Test) : test.tokens.length = 2 * test.path.length + 4 := by
  simp [tokens, pathTokens, List.length_flatMap, List.map_const', List.sum_replicate_nat]
  omega

/-- The condition, read. -/
def condition (test : Test) : Condition := .holds (.call [test.kind.test] [.ofNames test.path])

end Test

/-! The rules of a preamble. -/

def nameRule (name : String) : Rule where
  name := "target_name"
  head := .complete (.ofText name)

def boundRule (bound : Target.BoundSet) : Rule where
  name := "bound_constraints"
  head := .complete bound.expr

/-- A rule that is true where an input passes some tests. -/
def guard (name : String) (tests : List Test) : Rule where
  name := name
  head := .complete (.literal (.bool true))
  body := tests.map Test.condition

def reviewRule (tests : List Test) : Rule := guard "valid_review" tests

def constraintRule : Rule where
  name := "matching_constraint"
  head := .function [.name "kind", .name "name"] (.literal (.bool true))
  body := [
    .each none "bound_name" (.reference (.name "bound_constraints") [.name "kind"]),
    .holds (.compare .equal (.name "bound_name") (.name "name"))]

/-- The module that a preamble is. -/
def preambleModule (name : String) (bound : Target.BoundSet) (tests : List Test) : Module where
  package := ["target"]
  rules := [nameRule name, boundRule bound, reviewRule tests, constraintRule]

/-! Tokens. -/

def nameTokens (name : String) : List Placed := [
  ⟨.nothing, .word "package"⟩, ⟨.blank, .word "target"⟩, ⟨.lineBreak, .word "import"⟩,
  ⟨.blank, .word "rego"⟩, ⟨.nothing, .mark .dot⟩, ⟨.nothing, .word "v1"⟩,
  ⟨.lineBreak, .word "target_name"⟩, ⟨.blank, .mark .define⟩, ⟨.blank, .quoted name⟩]

def boundTokens (bound : Target.BoundSet) : List Placed :=
  ⟨.lineBreak, .word "bound_constraints"⟩ :: ⟨.blank, .mark .define⟩ ::
    bound.tokens .blank

def guardTokens (tests : List Test) : List Placed :=
  ⟨.lineBreak, .word "valid_review"⟩ :: ⟨.blank, .word "if"⟩ :: ⟨.blank, .mark .openBrace⟩ ::
    (tests.flatMap Test.tokens ++ [⟨.lineBreak, .mark .closeBrace⟩])

def constraintTokens : List Placed := [
  ⟨.lineBreak, .word "matching_constraint"⟩, ⟨.nothing, .mark .openParen⟩,
  ⟨.nothing, .word "kind"⟩, ⟨.nothing, .mark .comma⟩, ⟨.blank, .word "name"⟩,
  ⟨.nothing, .mark .closeParen⟩, ⟨.blank, .word "if"⟩, ⟨.blank, .mark .openBrace⟩,
  ⟨.lineBreak, .word "some"⟩, ⟨.blank, .word "bound_name"⟩, ⟨.blank, .word "in"⟩,
  ⟨.blank, .word "bound_constraints"⟩, ⟨.nothing, .mark .openBracket⟩, ⟨.nothing, .word "kind"⟩,
  ⟨.nothing, .mark .closeBracket⟩, ⟨.lineBreak, .word "bound_name"⟩, ⟨.blank, .mark .equal⟩,
  ⟨.blank, .word "name"⟩, ⟨.lineBreak, .mark .closeBrace⟩]

theorem chunk_lines (gap : Gap) : Chunk gap "\n\n".toList [] .lineBreak :=
  .of_steps (Nat.zero_le _) fun fuel _ => by cases fuel <;> cases gap <;> rfl

theorem chunk_line (gap : Gap) : Chunk gap "\n".toList [] .lineBreak :=
  .of_steps (Nat.zero_le _) fun fuel _ => by cases fuel <;> cases gap <;> rfl

theorem chunk_name (name : String) : Chunk .nothing
    ("package target\n\nimport rego.v1\n\n" ++ "target_name := " ++ Json.quoted name).toList
    (nameTokens name) .nothing := by
  have start : Chunk .nothing "package target\n\nimport rego.v1\n\n".toList
      ((nameTokens name).take 6) .lineBreak :=
    .of_steps (Nat.le_of_ble_eq_true rfl) fun fuel _ => by cases fuel <;> rfl
  have defined : Chunk .lineBreak "target_name := ".toList
      (((nameTokens name).drop 6).take 2) .blank :=
    .of_steps (Nat.le_of_ble_eq_true rfl) fun fuel _ => by cases fuel <;> rfl
  exact (start.join defined).join (.quoted .blank name)

theorem skipGap_wordStart {c : Char} (begins : Token.isWordStart c = true) (gap : Gap)
    (cs : List Char) : Token.skipGap gap false (c :: cs) = (gap, c :: cs) := by
  have apart (d : Char) (other : Token.isWordStart d = false) : c ≠ d := by
    rintro rfl
    exact Bool.false_ne_true (other.symm.trans begins)
  have visible : Json.isBlank c = false := by
    simp [Json.isBlank, apart ' ' rfl, apart '\t' rfl, apart '\n' rfl, apart '\r' rfl]
  simp [Token.skipGap, apart '\n' rfl, apart '#' rfl, visible]

/-- A word is read as a whole before a point or a parenthesis. -/
theorem chunk_word {name : String} (proper : IsName name) {last : Char} {mark : Mark}
    (closes : last = '.' ∧ mark = .dot ∨ last = ')' ∧ mark = .closeParen) :
    Chunk .nothing (name.toList ++ [last]) [⟨.nothing, .word name⟩, ⟨.nothing, .mark mark⟩]
      .nothing := by
  obtain ⟨identifier, -⟩ := proper
  cases whole : name.toList with
  | nil => simp [whole, AliasTable.isIdentifier] at identifier
  | cons c cs =>
    rw [whole, AliasTable.isIdentifier, Bool.and_eq_true, List.all_eq_true] at identifier
    obtain ⟨begins, inside⟩ := identifier
    refine .of_steps (by simp) fun fuel rest => ?_
    have stops : ∀ d, (last :: rest).head? = some d → Token.isWordChar d = false := by
      rintro d here
      obtain rfl := Option.some.inj here
      rcases closes with ⟨rfl, -⟩ | ⟨rfl, -⟩ <;> rfl
    have run : (cs ++ last :: rest).span Token.isWordChar = (cs, last :: rest) :=
      Lexeme.span_run inside stops
    have word : Token.next? (c :: (cs ++ last :: rest)) = some (.word name, last :: rest) := by
      have starts : Token.isWordStart c = true := begins
      rw [Token.next?, if_pos starts, run, ← String.ofList_toList (s := name), whole]
    have point : Token.listAfter .nothing (fuel + 1) (last :: rest) =
        (Token.listAfter .nothing fuel rest).map (⟨.nothing, .mark mark⟩ :: ·) := by
      rw [← Token.listFrom_eq]
      rcases closes with ⟨rfl, rfl⟩ | ⟨rfl, rfl⟩ <;> cases fuel <;> rfl
    have text : c :: cs ++ [last] ++ rest = c :: (cs ++ last :: rest) := by simp
    rw [text]
    change Token.listAfter .nothing (fuel + 1 + 1) _ = _
    rw [Token.listAfter, skipGap_wordStart begins]
    dsimp only
    rw [word]
    dsimp only
    rw [Token.listFrom_eq, point]
    rfl

theorem chunk_path {first : String} {path : List String}
    (proper : ∀ name ∈ first :: path, IsName name) :
    Chunk .nothing (String.intercalate "." (first :: path) ++ ")").toList
      (⟨.nothing, .word first⟩ :: (Test.pathTokens path ++ [⟨.nothing, .mark .closeParen⟩]))
      .nothing := by
  obtain ⟨here, later⟩ := List.forall_mem_cons.1 proper
  induction path generalizing first with
  | nil =>
    have last := chunk_word here (.inr ⟨rfl, rfl⟩)
    have single : String.intercalate "." [first] = first := by
      apply String.toList_injective
      simp
    rw [single, String.toList_append]
    exact last
  | cons second path ih =>
    obtain ⟨next, others⟩ := List.forall_mem_cons.1 later
    have cut : String.intercalate "." (first :: second :: path) ++ ")" =
        (first ++ ".") ++ (String.intercalate "." (second :: path) ++ ")") := by
      apply String.toList_injective
      simp [String.toList_intercalate, List.intercalate]
    have head : Chunk .nothing (first ++ ".").toList
        [⟨.nothing, .word first⟩, ⟨.nothing, .mark .dot⟩] .nothing := by
      rw [String.toList_append]
      exact chunk_word here (.inl ⟨rfl, rfl⟩)
    rw [cut]
    have joined := head.join (ih later next others)
    simpa [Test.pathTokens] using joined

theorem chunk_test {test : Test} (proper : test.IsProper) :
    Chunk .lineBreak ("\t" ++ test.text ++ "\n").toList test.tokens .lineBreak := by
  have start : Chunk .lineBreak ("\t" ++ (test.kind.test ++ "(")).toList
      [⟨.lineBreak, .word test.kind.test⟩, ⟨.nothing, .mark .openParen⟩] .nothing := by
    cases test.kind <;> exact .of_steps (Nat.le_of_ble_eq_true rfl) fun fuel _ => by cases fuel <;> rfl
  have path := chunk_path (List.forall_mem_cons.2 ⟨⟨rfl, rfl⟩, proper⟩ :
    ∀ name ∈ "input" :: test.path, IsName name)
  have cut : "\t" ++ test.text ++ "\n" = "\t" ++ (test.kind.test ++ "(") ++
      (String.intercalate "." ("input" :: test.path) ++ ")") ++ "\n" := by
    simp only [Test.text, String.append_assoc]
  rw [cut]
  have whole := (start.join path).join (chunk_line .nothing)
  rwa [List.append_nil] at whole

theorem chunk_guard {tests : List Test} (proper : ∀ test ∈ tests, test.IsProper) :
    Chunk .lineBreak (Target.guardRule (tests.map Test.text)).toList (guardTokens tests)
      .lineBreak := by
  have conditions : Chunk .lineBreak (String.join ((tests.map Test.text).map fun condition =>
      "\t" ++ condition ++ "\n")).toList (tests.flatMap Test.tokens) .lineBreak := by
    induction tests with
    | nil => exact .nil
    | cons test tests ih =>
      obtain ⟨first, others⟩ := List.forall_mem_cons.1 proper
      rw [List.map_cons, List.map_cons, String.join_cons]
      exact (chunk_test first).join (ih others)
  have start : Chunk .lineBreak "valid_review if \x7b\n".toList
      ((guardTokens tests).take 3) .lineBreak :=
    .of_steps (Nat.le_of_ble_eq_true rfl) fun fuel _ => by cases fuel <;> rfl
  have last : Chunk .lineBreak "\x7d\n".toList [⟨.lineBreak, .mark .closeBrace⟩] .lineBreak :=
    .of_steps (Nat.le_of_ble_eq_true rfl) fun fuel _ => by cases fuel <;> rfl
  have whole := (start.join conditions).join last
  rwa [List.append_assoc] at whole

open Target (matchingNote matchingRule renderPreamble)

set_option maxRecDepth 2000 in
theorem chunk_note : Chunk .lineBreak matchingNote.toList [] .lineBreak := by
  have first : Chunk .lineBreak
      "# matching_constraint only checks that the constraint is bound to this target.\n".toList
      [] .lineBreak :=
    .of_steps (Nat.zero_le _) fun fuel _ => by cases fuel <;> rfl
  have second : Chunk .lineBreak
      "# Ancestry target/exclude globs are applied by the engine before evaluation,\n".toList
      [] .lineBreak :=
    .of_steps (Nat.zero_le _) fun fuel _ => by cases fuel <;> rfl
  have third : Chunk .lineBreak
      "# so every review a template sees already matches its constraint.\n".toList [] .lineBreak :=
    .of_steps (Nat.zero_le _) fun fuel _ => by cases fuel <;> rfl
  exact (first.join second).join third

theorem chunk_matching :
    Chunk .lineBreak matchingRule.toList constraintTokens .lineBreak := by
  have head : Chunk .lineBreak "matching_constraint(kind, name) if \x7b\n".toList
      (constraintTokens.take 8) .lineBreak :=
    .of_steps (Nat.le_of_ble_eq_true rfl) fun fuel _ => by cases fuel <;> rfl
  have each : Chunk .lineBreak "\tsome bound_name in bound_constraints[kind]\n".toList
      ((constraintTokens.drop 8).take 7) .lineBreak :=
    .of_steps (Nat.le_of_ble_eq_true rfl) fun fuel _ => by cases fuel <;> rfl
  have equal : Chunk .lineBreak "\tbound_name == name\n".toList
      ((constraintTokens.drop 15).take 3) .lineBreak :=
    .of_steps (Nat.le_of_ble_eq_true rfl) fun fuel _ => by cases fuel <;> rfl
  have last : Chunk .lineBreak "\x7d\n".toList [⟨.lineBreak, .mark .closeBrace⟩] .lineBreak :=
    .of_steps (Nat.le_of_ble_eq_true rfl) fun fuel _ => by cases fuel <;> rfl
  exact ((head.join each).join equal).join last

def preambleTokens (name : String) (bound : Target.BoundSet) (tests : List Test) : List Placed :=
  nameTokens name ++ (boundTokens bound ++ (guardTokens tests ++ constraintTokens))

theorem chunk_preamble (name : String) (bound : Target.BoundSet) {tests : List Test}
    (proper : ∀ test ∈ tests, test.IsProper) :
    Chunk .nothing (renderPreamble name bound (tests.map Test.text)).toList
      (preambleTokens name bound tests) .lineBreak := by
  have listed : Chunk .lineBreak "bound_constraints := ".toList
      ((boundTokens bound).take 2) .blank :=
    .of_steps (Nat.le_of_ble_eq_true rfl) fun fuel _ => by cases fuel <;> rfl
  have upTo := ((((chunk_name name).join (chunk_lines .nothing)).join listed).join
    (bound.chunk_render .blank)).join (chunk_lines .nothing)
  have whole := (((upTo.join (chunk_guard proper)).join (chunk_line .lineBreak)).join
    chunk_note).join chunk_matching
  have placed : nameTokens name ++ [] ++ (boundTokens bound).take 2 ++
      bound.tokens .blank ++ [] ++ guardTokens tests ++ [] ++ [] ++ constraintTokens =
        preambleTokens name bound tests := by
    simp [preambleTokens, boundTokens]
  exact placed ▸ whole

/-! Reading. -/

variable {fuel : Nat} {rest : List Placed} {next : Placed}

theorem readPath_names (ends : EndsBefore next) (base : Expr) (path : List String)
    (enough : path.length + 1 ≤ fuel) :
    readPath fuel base (Test.pathTokens path ++ next :: rest) =
      some (path.foldl (fun base name => base.extend (.ofText name)) base, next :: rest) := by
  induction path generalizing base fuel with
  | nil =>
    obtain ⟨fuel, rfl⟩ := Nat.exists_eq_add_of_le' enough
    exact readPath_of_ends ends base
  | cons name path ih =>
    obtain ⟨fuel, rfl⟩ := Nat.exists_eq_add_of_le' enough
    exact ih (base.extend (.ofText name)) (Nat.le_add_left (path.length + 1) fuel)

theorem readExpr_names (ends : EndsBefore next) (gap : Gap) (path : List String)
    (enough : path.length + 4 ≤ fuel) :
    readExpr fuel (⟨gap, .word "input"⟩ :: (Test.pathTokens path ++ next :: rest)) =
      some (.ofNames path, next :: rest) := by
  obtain ⟨fuel, rfl⟩ := Nat.exists_eq_add_of_le' enough
  change readExpr (fuel + path.length + 2 + 2) _ = _
  refine readExpr_of_term ends ?_
  exact readPath_names ends (.name "input") path (by omega)

/-- What ends the body of a rule, or goes on with it on a new line. -/
inductive EndsCondition : Placed → Prop
  | closeBrace (gap : Gap) : EndsCondition ⟨gap, .mark .closeBrace⟩
  | line (kind : Kind) : EndsCondition ⟨.lineBreak, .word kind.test⟩

theorem EndsCondition.endsBefore (ends : EndsCondition next) : EndsBefore next := by
  cases ends with
  | closeBrace gap => exact .closeBrace gap
  | line kind => exact .line (by cases kind <;> decide)

theorem readItems_names (path : List String) (enough : path.length + 5 ≤ fuel) :
    readItems fuel .closeParen (⟨.nothing, .word "input"⟩ :: (Test.pathTokens path ++
      ⟨.nothing, .mark .closeParen⟩ :: rest)) = some ([.ofNames path], rest) := by
  obtain ⟨fuel, rfl⟩ := Nat.exists_eq_add_of_le' enough
  change readItems (fuel + (path.length + 4) + 1) _ _ = _
  rw [readItems, readExpr_names (.closeParen .nothing) .nothing path (by omega),
    if_neg (by simp)]
  rfl

theorem readTerm_test (ends : EndsBefore next) (test : Test)
    (enough : test.path.length + 7 ≤ fuel) :
    readTerm fuel (test.tokens ++ next :: rest) =
      some (.call [test.kind.test] [.ofNames test.path], next :: rest) := by
  obtain ⟨fuel, rfl⟩ := Nat.exists_eq_add_of_le' enough
  have items : readItems (fuel + test.path.length + 5) .closeParen
      (⟨.nothing, .word "input"⟩ :: (Test.pathTokens test.path ++
        ⟨.nothing, .mark .closeParen⟩ :: next :: rest)) =
          some ([.ofNames test.path], next :: rest) :=
    readItems_names test.path (by omega)
  have word : Expr.ofWord? test.kind.test = some (.name test.kind.test) := by
    cases test.kind <;> rfl
  rw [test.tokens_append]
  change readTerm (fuel + test.path.length + 5 + 1 + 1) _ = _
  rw [readTerm, word]
  dsimp only
  rw [readPath, items]
  exact readPath_of_ends ends _

theorem readCondition_test (ends : EndsCondition next) (test : Test)
    (enough : test.path.length + 9 ≤ fuel) :
    readCondition fuel (test.tokens ++ next :: rest) = some (test.condition, next :: rest) := by
  obtain ⟨fuel, rfl⟩ := Nat.exists_eq_add_of_le' enough
  have term : readTerm (fuel + (test.path.length + 7)) (test.tokens ++ next :: rest) =
      some (.call [test.kind.test] [.ofNames test.path], next :: rest) :=
    readTerm_test ends.endsBefore test (by omega)
  have expr : readExpr (fuel + (test.path.length + 9)) (test.tokens ++ next :: rest) =
      some (.call [test.kind.test] [.ofNames test.path], next :: rest) :=
    readExpr_of_term ends.endsBefore term
  have holds : readHolds (fuel + (test.path.length + 9)) (test.tokens ++ next :: rest) =
      some (test.condition, next :: rest) := by
    rw [readHolds, expr]
    cases ends <;> rfl
  rw [← holds]
  cases test with
  | mk kind path => cases kind <;> rfl

theorem readConditions_tests {tests : List Test} (some : tests ≠ [])
    (enough : (tests.flatMap Test.tokens).length + 9 ≤ fuel) :
    readConditions fuel (tests.flatMap Test.tokens ++ ⟨.lineBreak, .mark .closeBrace⟩ :: rest) =
      .some (tests.map Test.condition, rest) := by
  induction tests generalizing fuel with
  | nil => exact absurd rfl some
  | cons test tests ih =>
    rw [List.flatMap_cons, List.length_append] at enough
    have first := test.length_tokens
    obtain ⟨fuel, rfl⟩ := Nat.exists_eq_add_of_le' enough
    change readConditions (fuel + (test.tokens.length + (tests.flatMap Test.tokens).length + 8) + 1)
      _ = _
    rw [List.flatMap_cons, List.append_assoc, readConditions]
    cases tests with
    | nil =>
      rw [List.flatMap_nil, List.nil_append,
        readCondition_test (.closeBrace .lineBreak) test (by omega)]
      rfl
    | cons second tests =>
      have enough : ((second :: tests).flatMap Test.tokens).length + 9 ≤ fuel +
          (test.tokens.length + ((second :: tests).flatMap Test.tokens).length + 8) := by
        omega
      have later := ih (List.cons_ne_nil second tests) enough
      have begins : (second :: tests).flatMap Test.tokens ++
          ⟨.lineBreak, .mark .closeBrace⟩ :: rest = ⟨.lineBreak, .word second.kind.test⟩ ::
            ((second.tokens.tail ++ tests.flatMap Test.tokens) ++
              ⟨.lineBreak, .mark .closeBrace⟩ :: rest) := rfl
      rw [begins] at later ⊢
      rw [readCondition_test (.line second.kind) test (by omega)]
      dsimp only
      rw [later]
      rfl

theorem readRule_name (name : String) (fuel : Nat) (rest : List Placed) :
    readRule (fuel + 6) ((nameTokens name).drop 6 ++ ⟨.lineBreak, .word "bound_constraints"⟩ :: rest)
      = some (nameRule name, ⟨.lineBreak, .word "bound_constraints"⟩ :: rest) := rfl

theorem readRule_named {gap : Gap} {name : String} {tokens after : List Placed} {head : Head}
    {body : List Condition} (plain : isKeyword name = false)
    (begins : readHead fuel tokens = some (head, after))
    (ends : readBody fuel after = some (body, rest)) :
    readRule fuel (⟨gap, .word name⟩ :: tokens) = some ({ name, head, body }, rest) := by
  unfold readRule
  split
  next _ same =>
    obtain ⟨⟨-, rfl⟩, -⟩ := by simpa using same
    cases plain
  next _ same =>
    obtain ⟨⟨-, rfl⟩, rfl⟩ := by simpa using same
    rw [plain, begins]
    dsimp only
    rw [ends]
    rfl
  next _ other => exact absurd rfl (other _ _ _)

theorem readRule_bound (bound : Target.BoundSet) (enough : bound.span + 12 ≤ fuel)
    (rest : List Placed) :
    readRule fuel (boundTokens bound ++ ⟨.lineBreak, .word "valid_review"⟩ :: rest) =
      some (boundRule bound, ⟨.lineBreak, .word "valid_review"⟩ :: rest) := by
  have value : readExpr fuel (bound.tokens .blank ++
      ⟨.lineBreak, .word "valid_review"⟩ :: rest) =
        some (bound.expr, ⟨.lineBreak, .word "valid_review"⟩ :: rest) :=
    bound.readExpr_tokens (.line (by decide)) .blank enough
  have head : readHead fuel (⟨.blank, .mark .define⟩ :: (bound.tokens .blank ++
      ⟨.lineBreak, .word "valid_review"⟩ :: rest)) =
        some (.complete bound.expr, ⟨.lineBreak, .word "valid_review"⟩ :: rest) := by
    simp only [readHead, readAssigned, value]
    rfl
  have body : readBody fuel (⟨.lineBreak, .word "valid_review"⟩ :: rest) =
      some ([], ⟨.lineBreak, .word "valid_review"⟩ :: rest) := rfl
  exact readRule_named rfl head body

theorem readRule_guard {tests : List Test} (some : tests ≠ [])
    (enough : (tests.flatMap Test.tokens).length + 9 ≤ fuel) (rest : List Placed) :
    readRule fuel (guardTokens tests ++ rest) = .some (reviewRule tests, rest) := by
  have body : readBody fuel (⟨.blank, .word "if"⟩ :: ⟨.blank, .mark .openBrace⟩ ::
      (tests.flatMap Test.tokens ++ ⟨.lineBreak, .mark .closeBrace⟩ :: rest)) =
        .some (tests.map Test.condition, rest) := readConditions_tests some enough
  have tokens : guardTokens tests ++ rest = ⟨.lineBreak, .word "valid_review"⟩ ::
      ⟨.blank, .word "if"⟩ :: ⟨.blank, .mark .openBrace⟩ ::
        (tests.flatMap Test.tokens ++ ⟨.lineBreak, .mark .closeBrace⟩ :: rest) := by
    simp [guardTokens]
  rw [tokens]
  exact readRule_named rfl rfl body

theorem readRule_constraint (fuel : Nat) :
    readRule (fuel + 30) constraintTokens = some (constraintRule, []) := rfl

theorem readRules_cons {rule : Rule} {rules : List Rule} {tokens : List Placed}
    (read : readRule fuel tokens = some (rule, rest)) (others : readRules fuel rest = some rules) :
    readRules (fuel + 1) tokens = some (rule :: rules) := by
  cases tokens with
  | nil => cases read
  | cons token tokens =>
    rw [readRules, read]
    · exact congrArg (Option.map (rule :: ·)) others
    · rintro ⟨⟩

theorem readRules_preamble (name : String) (bound : Target.BoundSet) {tests : List Test}
    (some : tests ≠ [])
    (enough : bound.span + (tests.flatMap Test.tokens).length + 40 ≤ fuel) :
    readRules fuel ((nameTokens name).drop 6 ++
      (boundTokens bound ++ (guardTokens tests ++ constraintTokens))) =
        .some (preambleModule name bound tests).rules := by
  obtain ⟨fuel, rfl⟩ := Nat.exists_eq_add_of_le' enough
  generalize long : bound.span + (tests.flatMap Test.tokens).length = steps at *
  have matching : readRules (fuel + steps + 37) constraintTokens = .some [constraintRule] :=
    readRules_cons (readRule_constraint (fuel + steps + 6)) rfl
  have guarded : readRules (fuel + steps + 38) (guardTokens tests ++ constraintTokens) =
      .some [reviewRule tests, constraintRule] :=
    readRules_cons (readRule_guard some (by omega) _) matching
  have listed : readRules (fuel + steps + 39)
      (boundTokens bound ++ (guardTokens tests ++ constraintTokens)) =
        .some [boundRule bound, reviewRule tests, constraintRule] :=
    readRules_cons (readRule_bound bound (by omega) ((guardTokens tests).tail ++ constraintTokens))
      guarded
  exact readRules_cons (readRule_name name (fuel + steps + 33)
    (⟨.blank, .mark .define⟩ :: bound.tokens .blank ++
      (guardTokens tests ++ constraintTokens))) listed

theorem ofTokens?_preamble (name : String) (bound : Target.BoundSet) {tests : List Test}
    (some : tests ≠ [])
    (enough : bound.span + (tests.flatMap Test.tokens).length + 40 ≤ fuel) :
    Module.ofTokens? fuel (preambleTokens name bound tests) =
      .some (preambleModule name bound tests) := by
  have rules := readRules_preamble name bound some enough
  obtain ⟨fuel, rfl⟩ := Nat.exists_eq_add_of_le' enough
  change (readRules _ ((nameTokens name).drop 6 ++
      (boundTokens bound ++ (guardTokens tests ++ constraintTokens)))).bind
    (fun rules => .some ({ package := ["target"], rules := rules } : Module)) = _
  rw [rules]
  rfl

theorem read?_preamble (name : String) (bound : Target.BoundSet) {tests : List Test}
    (some : tests ≠ []) (proper : ∀ test ∈ tests, test.IsProper) :
    Module.read? (renderPreamble name bound (tests.map Test.text)) =
      .some (preambleModule name bound tests) := by
  have many := bound.span_le .blank
  have enough : bound.span + (tests.flatMap Test.tokens).length + 40 ≤
      Module.fuelFor (preambleTokens name bound tests) := by
    simp only [Module.fuelFor, preambleTokens, boundTokens, guardTokens, nameTokens,
      constraintTokens, List.length_append, List.length_cons, List.length_nil]
    omega
  rw [Module.read?, (chunk_preamble name bound proper).list?]
  exact ofTokens?_preamble name bound some enough

end PolicyReview.Rego
