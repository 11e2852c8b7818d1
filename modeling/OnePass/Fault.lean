import OnePass.Instruction
import OnePass.Operator

/-!
# Faults

Everything that can stop a compilation, each as a cause of its own. The kind of a fault decides the exit
code of the process; its message is the text for the user.

* `FaultKind` — the ten kinds and their exit codes;
* `Fault` — the causes;
* `Fault.kind`, `Fault.message` — how a cause is reported;
* `Diagnostic` — a fault at a place.
-/

namespace OnePass

/-- The kinds of faults. -/
inductive FaultKind where
  | lexical
  | syntactic
  | function
  | signature
  | undefined
  | returning
  | typing
  | inference
  | semantic
  | internal
deriving DecidableEq, Repr, Inhabited

namespace FaultKind

def exitCode : FaultKind → Nat
  | lexical => 1
  | syntactic => 2
  | function => 3
  | signature => 4
  | undefined => 5
  | returning => 6
  | typing => 7
  | inference => 8
  | semantic => 9
  | internal => 99

def text : FaultKind → String
  | lexical => "字句解析エラー"
  | syntactic => "構文解析エラー"
  | function => "未定義関数エラー"
  | signature => "関数呼び出しの型エラー"
  | undefined => "未定義変数エラー"
  | returning => "return文エラー"
  | typing => "型互換性エラー"
  | inference => "型推論エラー"
  | semantic => "意味解析エラー"
  | internal => "内部エラー"

end FaultKind

/-- The causes of a failed compilation. -/
inductive Fault where
  -- characters
  | unclosedComment
  | loneQuestionMark
  | unknownCharacter (c : Char)
  | missingFraction
  | missingExponent
  | letterAfterNumber (c : Char)
  | integerRange (digits : String)
  | unclosedString
  | textAfterOpening
  | unclosedBlock
  | shallowLine
  | escapeWithoutBrace
  | malformedCodePoint
  | invalidCodePoint (digits : String)
  | unknownEscape (c : Char)
  | danglingEscape
  -- tokens
  | expected (what : String) (found : TokenKind)
  | expectedName (role : String) (found : TokenKind)
  | expectedOneOf (choices : List String) (found : TokenKind)
  | unexpected (found : TokenKind)
  | malformedExpression (found : TokenKind)
  | missingBreak (found : TokenKind)
  | nestedFunction
  -- definitions
  | redeclared (name : String)
  | functionRedefined (name : String)
  | symbolRedefined (word name : String)
  | unknownFunction (name : String)
  | notAFunction (name : String)
  -- calls
  | argumentCount (function : String) (declared given : Nat)
  | argumentLabel (function : String) (position : Nat) (label : String)
  | argumentType (function : String) (position : Nat) (declared given : Ty)
  | resultType (function : String) (declared wanted : Ty)
  | returnedType (function : String) (declared given : Ty)
  -- variables
  | unknownVariable (name : String)
  | uninitialized (name : String)
  | notAVariable (name : String)
  | uninitializedArgument (function : String)
  -- returns
  | returnOutsideFunction
  | repeatedReturn
  | valueFromVoid (function : String)
  | missingValue (function : String) (declared : Ty)
  | pathWithoutReturn (function : String)
  -- types
  | stringArithmetic
  | operandTypes (operator : Operator) (left right : Ty)
  | coalesceLeft (left : Ty)
  | unwrapOperand (operand : Ty)
  | storedType (declared : Ty) (name : String) (given : Ty)
  | conditionType (statement : Keyword) (given : Ty)
  | ifLetType (name : String) (given : Ty)
  | comparisonStored (name : String)
  -- inference
  | inferFromUndeclared (function name : String)
  | inferFromVoid (function name : String)
  | inferFromNil (name : String)
  | inferFromNothing (name : String)
  | noTypeNoValue (name : String)
  -- other rules of the language
  | reassigned (name : String)
  | parameterAssigned (name : String)
  | sameLabelAndName (name : String)
  | unwrapExitCode (limit given : Nat)
  -- states that no source text leads to
  | insertBeforeStart
  | nothingToDelete
  | leavingGlobalScope
  | missingLoopLabel (scope : Nat)
  | missingParameter (index : Nat)
  | missingCalleeParameter (function : String) (index : Nat)
  | missingFunctionSymbol (function : String)
  | missingScaffold (call : Nat)
  | missingOperand
  | missingBlock
  | namelessInstruction (kind : InstructionKind)
  | missingLiteral
  | missingBody (function : String)
  -- from outside the compiler
  | output (text : String)
  | reported (kind : FaultKind) (text : String)
deriving DecidableEq, Repr, Inhabited

namespace Fault

def kind : Fault → FaultKind
  | unclosedComment | loneQuestionMark | unknownCharacter _ | missingFraction | missingExponent
  | letterAfterNumber _ | integerRange _ | unclosedString | textAfterOpening | unclosedBlock | shallowLine
  | escapeWithoutBrace | malformedCodePoint | invalidCodePoint _ | unknownEscape _ | danglingEscape => .lexical
  | expected .. | expectedName .. | expectedOneOf .. | unexpected _ | malformedExpression _ | missingBreak _
  | nestedFunction => .syntactic
  | redeclared _ | functionRedefined _ | symbolRedefined .. | unknownFunction _ | notAFunction _ => .function
  | argumentCount .. | argumentLabel .. | argumentType .. | resultType .. | returnedType .. => .signature
  | unknownVariable _ | uninitialized _ | notAVariable _ | uninitializedArgument _ => .undefined
  | returnOutsideFunction | repeatedReturn | valueFromVoid _ | missingValue .. | pathWithoutReturn _ => .returning
  | stringArithmetic | operandTypes .. | coalesceLeft _ | unwrapOperand _ | storedType .. | conditionType ..
  | ifLetType .. | comparisonStored _ => .typing
  | inferFromUndeclared .. | inferFromVoid .. | inferFromNil _ | inferFromNothing _ | noTypeNoValue _ => .inference
  | reassigned _ | parameterAssigned _ | sameLabelAndName _ | unwrapExitCode .. => .semantic
  | insertBeforeStart | nothingToDelete | leavingGlobalScope | missingLoopLabel _ | missingParameter _
  | missingCalleeParameter .. | missingFunctionSymbol _ | missingScaffold _ | missingOperand
  | missingBlock | namelessInstruction _ | missingLiteral | missingBody _ | output _ => .internal
  | reported kind _ => kind

def expectation (what : String) (found : TokenKind) : String :=
  s!"'{what}'が期待されましたが、{found.shown}が見つかりました"

def message : Fault → String
  | unclosedComment => "ブロックコメントが閉じられていません"
  | loneQuestionMark => "単独の '?' は使用できません"
  | unknownCharacter c => s!"不明な文字です: '{c}'"
  | missingFraction => "小数点の後に数字がありません"
  | missingExponent => "指数部分に数字がありません"
  | letterAfterNumber c => s!"数値リテラルの後に不正な文字 '{c}' があります"
  | integerRange digits => s!"整数リテラルが範囲外です: {digits}"
  | unclosedString => "文字列リテラルが閉じられていません"
  | textAfterOpening => "複数行文字列の開始 '\"\"\"' の後には改行が必要です"
  | unclosedBlock => "複数行文字列リテラルが閉じられていません"
  | shallowLine => "複数行文字列の行の字下げが閉じの '\"\"\"' より浅いです"
  | escapeWithoutBrace => "Unicodeエスケープには '\x7b' が必要です"
  | malformedCodePoint => "不正なUnicodeエスケープシーケンスです"
  | invalidCodePoint digits => "不正なUnicodeスカラー値です: \\u\x7b" ++ digits ++ "\x7d"
  | unknownEscape c => s!"無効なエスケープシーケンスです: \\{c}"
  | danglingEscape => "無効なエスケープシーケンスです"
  | expected what found => expectation what found
  | expectedName role found => s!"{role}には" ++ expectation "識別子" found
  | expectedOneOf choices found =>
      "'" ++ "', '".intercalate choices ++ s!"'のいずれかが期待されましたが、{found.shown}が見つかりました"
  | unexpected found => s!"予期しない{found.shown}です"
  | malformedExpression found => s!"不正な式です: {found.shown}"
  | missingBreak found => s!"文の間には改行が必要です（{found.shown}の前）"
  | nestedFunction => "関数はグローバルスコープでのみ定義できます"
  | redeclared name => s!"'{name}' はこのスコープで既に定義されています"
  | functionRedefined name => s!"関数 '{name}' は既に定義されています"
  | symbolRedefined word name => s!"{word} '{name}' は既に定義されています"
  | unknownFunction name => s!"関数 '{name}' は定義されていません"
  | notAFunction name => s!"'{name}' は関数ではありません"
  | argumentCount function declared given =>
      s!"関数 '{function}' の引数は{declared}個ですが、{given}個渡されました"
  | argumentLabel function position label =>
      s!"関数 '{function}' の{position}番目の引数のラベルが一致しません（期待: {label}）"
  | argumentType function position declared given =>
      s!"関数 '{function}' の{position}番目の引数は {declared.text} 型ですが、{given.text} 型が渡されました"
  | resultType function declared wanted =>
      s!"関数 '{function}' の戻り値は {declared.text} 型ですが、{wanted.text} 型が必要です"
  | returnedType function declared given =>
      s!"関数 '{function}' の戻り値は {declared.text} 型ですが、{given.text} 型の値が返されました"
  | unknownVariable name => s!"変数 '{name}' は定義されていません"
  | uninitialized name => s!"変数 '{name}' は初期化されていません"
  | notAVariable name => s!"'{name}' は変数ではありません"
  | uninitializedArgument function => s!"関数 '{function}' に初期化されていない変数が渡されました"
  | returnOutsideFunction => "関数の外で return 文は使用できません"
  | repeatedReturn => "同じブロックに複数の return 文があります"
  | valueFromVoid function => s!"値を返さない関数 '{function}' の return に式があります"
  | missingValue function declared => s!"関数 '{function}' は {declared.text} 型の値を返す必要があります"
  | pathWithoutReturn function => s!"関数 '{function}' には値を返さない経路があります"
  | stringArithmetic => "文字列には '+' 以外の算術演算子を使用できません"
  | operandTypes operator left right =>
      s!"演算子 '{operator.text}' は {left.text} 型と {right.text} 型には適用できません"
  | coalesceLeft left => s!"'??' の左辺はオプショナル型でなければなりません（{left.text} 型）"
  | unwrapOperand operand => s!"'!' はオプショナル型にのみ使用できます（{operand.text} 型）"
  | storedType declared name given =>
      s!"{declared.text} 型の '{name}' に {given.text} 型の値は代入できません"
  | conditionType statement given =>
      s!"{statement.text} の条件は比較式でなければなりません（{given.text} 型）"
  | ifLetType name given => s!"if let の変数 '{name}' はオプショナル型でなければなりません（{given.text} 型）"
  | comparisonStored name => s!"比較式の結果は変数 '{name}' に格納できません"
  | inferFromUndeclared function name =>
      s!"宣言前の関数 '{function}' の戻り値から '{name}' の型を推論できません"
  | inferFromVoid function name => s!"関数 '{function}' は値を返さないため '{name}' の型を推論できません"
  | inferFromNil name => s!"nil から変数 '{name}' の型を推論できません"
  | inferFromNothing name => s!"変数 '{name}' の型を推論できません"
  | noTypeNoValue name => s!"変数 '{name}' には型注釈か初期値が必要です"
  | reassigned name => s!"定数 '{name}' には再代入できません"
  | parameterAssigned name => s!"パラメータ '{name}' には代入できません"
  | sameLabelAndName name => s!"パラメータの外部名と内部名は異なる必要があります: '{name}'"
  | unwrapExitCode limit given => s!"unwrap_exit_code は 0〜{limit} の範囲で指定してください（{given}）"
  | insertBeforeStart => "プログラム開始命令の前には挿入できません"
  | nothingToDelete => "削除する命令がありません"
  | leavingGlobalScope => "グローバルスコープから抜けることはできません"
  | missingLoopLabel scope => s!"ループ {scope} のラベルが見つかりません"
  | missingParameter index => s!"{index}番目のパラメータがありません"
  | missingCalleeParameter function index => s!"関数 '{function}' の{index}番目のパラメータが見つかりません"
  | missingFunctionSymbol function => s!"関数 '{function}' のシンボルがありません"
  | missingScaffold call => s!"呼び出し #{call} の足場命令が見つかりません"
  | missingOperand => "式スタックに値がありません"
  | missingBlock => "対応するブロックがありません"
  | namelessInstruction kind => s!"{kind.text} 命令に名前がありません"
  | missingLiteral => "リテラル命令に値がありません"
  | missingBody function => s!"組み込み関数 '{function}' の本体がありません"
  | output text => s!"I/Oエラー: {text}"
  | reported _ text => text

end Fault

/-- A fault, with the place it is about if it is about one. -/
structure Diagnostic where
  fault : Fault
  location : Option Location := none
deriving DecidableEq, Repr, Inhabited

namespace Diagnostic

def kind (d : Diagnostic) : FaultKind := d.fault.kind

def message (d : Diagnostic) : String := d.fault.message

def exitCode (d : Diagnostic) : Nat := d.kind.exitCode

def at? (d : Diagnostic) (place : Location) : Diagnostic :=
  { d with location := some (d.location.getD place) }

def text (d : Diagnostic) : String :=
  let place := match d.location with
    | some place => s!"{place.text}: "
    | none => ""
  s!"{place}{d.kind.text}: {d.message}"

end Diagnostic

end OnePass
